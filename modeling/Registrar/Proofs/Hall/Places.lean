import Registrar.Proofs.Hall.ContiguousIndices
import Registrar.Proofs.Hall.ItemWorkers

/-!
Where an item is, while it is not at rest. Once the worker is started an item that is not at rest is at one
place: the worker has it in hand, its index waits on the lane, its add has still to announce it, or nobody
will before the next scan, as the lane has refused it or was lost with it. `Hall.one_place` says so of every
run over a store that does not fail, whatever the gateway answers.
-/

namespace Registrar

open Item (Status)
open Hall (filed posted linesOf Records)

namespace Hall

/-- Where an item may be that is not at rest. -/
inductive Place where
  | hand
  | waiting
  | held
  | refused
  | dropped
  deriving DecidableEq

/-- An item is at a place. -/
def At (hall : Hall) (item : Item) : Place → Prop
  | .hand => hall.hand = some item.index
  | .waiting => item.status = .initial ∧ hall.world.lane.waiting.count item.index = 1
  | .held => item.status = .initial ∧ ∃ (n : Nat) (request : ItemRequest) (task : _),
      hall.visits[n]? = some (.adding request task) ∧ Records hall.log n (some item) none
  | .refused => item.status = .initial ∧ ∃ (n : Nat) (request : ItemRequest) (error : QueueError),
      (error = .laneFull item.index ∨ error = .laneClosed) ∧
      (hall.visits[n]? = some (.added request (.error error)) ∨
        ∃ task, hall.visits[n]? = some (.adding request task)) ∧
      Records hall.log n (some item) (some (item.index, .error error))
  | .dropped => item.status = .initial ∧ item.index ∈ hall.left

variable {hall : Hall} {capacity : Nat} {skip : Bool} {watch : Watch} {item : Item}

/-- An item whose index was announced with success is not held, and was not refused. -/
theorem Balanced.not_posted (balanced : hall.Balanced capacity skip watch) {n : Nat}
    {told : Option (Int64 × Except QueueError Unit)} (records : Records hall.log n (some item) told)
    (failed : told ≠ some (item.index, .ok ())) : item.index ∉ posted hall.log := by
  intro there
  obtain ⟨holder, orderly⟩ := balanced.orderly
  obtain ⟨m, other, records', same⟩ := orderly.poster there
  exact failed (same ▸ (Records.unique orderly.sound records records' same.symm).2)

/-- Whether what is at a place was announced with success. -/
def Place.announced : Place → Bool
  | .hand | .waiting | .dropped => true
  | .held | .refused => false

theorem Balanced.announced_iff (balanced : hall.Balanced capacity skip watch) {place : Place}
    (there : hall.At item place) : place.announced = true ↔ item.index ∈ posted hall.log := by
  have accounted := balanced.accounted
  cases place with
  | hand => exact iff_of_true rfl (accounted.received (accounted.hand _ there)).1
  | waiting =>
    refine iff_of_true rfl ?_
    rw [accounted.posted]
    exact List.mem_append_right _ (List.count_pos_iff.1 (there.2 ▸ Nat.one_pos))
  | dropped =>
    refine iff_of_true rfl ?_
    rw [accounted.posted]
    exact List.mem_append_left _ (List.mem_append_right _ there.2)
  | held =>
    obtain ⟨_, n, request, task, _, records⟩ := there
    exact iff_of_false nofun (balanced.not_posted records nofun)
  | refused =>
    obtain ⟨_, n, request, error, _, _, records⟩ := there
    exact iff_of_false nofun (balanced.not_posted records nofun)

/-- An item is at one place at most. -/
theorem Balanced.place_unique (balanced : hall.Balanced capacity skip watch) {p q : Place}
    (hp : hall.At item p) (hq : hall.At item q) : p = q := by
  have same : p.announced = q.announced :=
    Bool.eq_iff_iff.2 ((balanced.announced_iff hp).trans (balanced.announced_iff hq).symm)
  obtain ⟨holder, orderly⟩ := balanced.orderly
  have accounted := balanced.accounted
  have waits : ∀ {item : Item}, hall.At item .waiting → item.index ∈ hall.world.lane.waiting :=
    fun there => List.count_pos_iff.1 (there.2 ▸ Nat.one_pos)
  have inHand : hall.At item .hand → item.index ∉ hall.left ∧ item.index ∉ hall.world.lane.waiting :=
    fun hand => (accounted.received (accounted.hand _ hand)).2
  have once : ¬ (hall.At item .held ∧ hall.At item .refused) := by
    rintro ⟨⟨_, n, _, _, _, records⟩, _, m, _, _, _, _, records'⟩
    cases (Records.unique orderly.sound records records' rfl).2
  cases p with
  | hand =>
    cases q with
    | hand => rfl
    | waiting => exact absurd (waits hq) (inHand hp).2
    | dropped => exact absurd hq.2 (inHand hp).1
    | held | refused => cases same
  | waiting =>
    cases q with
    | waiting => rfl
    | hand => exact absurd (waits hp) (inHand hq).2
    | dropped => exact absurd hq.2 (accounted.waits (waits hp)).2
    | held | refused => cases same
  | dropped =>
    cases q with
    | dropped => rfl
    | hand => exact absurd hp.2 (inHand hq).1
    | waiting => exact absurd hp.2 (accounted.waits (waits hq)).2
    | held | refused => cases same
  | held =>
    cases q with
    | held => rfl
    | refused => exact absurd ⟨hp, hq⟩ once
    | hand | waiting | dropped => cases same
  | refused =>
    cases q with
    | refused => rfl
    | held => exact absurd ⟨hq, hp⟩ once
    | hand | waiting | dropped => cases same

/-- An item that its add has stored and that the worker has not taken is somewhere in between. -/
theorem Balanced.place_of_unserved (balanced : hall.Balanced capacity skip watch)
    (unserved : Unserved hall.log hall.received item) : ∃ place, hall.At item place := by
  obtain ⟨holder, orderly⟩ := balanced.orderly
  have accounted := balanced.accounted
  obtain ⟨stored, untaken⟩ := unserved
  obtain ⟨line, there, files⟩ := List.mem_filterMap.1 stored
  obtain ⟨n, visit, request, stage, own, found, shows, known, records⟩ :=
    orderly.author there (.inl (by rw [files]; rfl))
  have same : stage.filed = some item :=
    (records.sole own (Line.changes_of_filed files)).2.1.symm.trans files
  have initial := (known.own same).initial
  have held : stage.told = none → stage.answer = none → hall.At item .held := by
    intro untold unanswered
    rw [same, untold] at records
    obtain ⟨task, rfl⟩ | ⟨answer, rfl, answered⟩ := shows
    · exact ⟨initial, n, request, task, found, records⟩
    · cases unanswered.symm.trans answered
  cases stage with
  | unlocking | announcing => exact ⟨.held, held rfl rfl⟩
  | announced own' answer =>
    cases same
    rcases answer with error | ⟨⟩
    · refine ⟨.refused, initial, n, request, error, known.2 error rfl, ?_, records⟩
      obtain ⟨task, rfl⟩ | ⟨answer, rfl, answered⟩ := shows
      · exact .inr ⟨task, found⟩
      · cases answered
        exact .inl found
    · have posted : item.index ∈ posted hall.log := records.posted
      rw [accounted.posted, List.append_assoc] at posted
      rcases List.mem_append.1 ((List.mem_append.1 posted).resolve_left untaken) with lost | waits
      · exact ⟨.dropped, initial, lost⟩
      · exact ⟨.waiting, initial, (accounted.waits waits).1⟩
  | _ => cases same

/-- Once there is a worker, every item that is not at rest is as its add has stored it, or the worker has
it in hand. -/
theorem Balanced.kept (balanced : hall.Balanced capacity skip watch)
    (present : hall.world.worker ≠ .absent) (has : Items.Has hall.world.store item)
    (live : item.status.isTerminal = false) :
    Unserved hall.log hall.received item ∨ hall.hand = some item.index := by
  have guards := balanced.guards
  have mans := balanced.manned.worker
  cases watch with
  | idle | scanning | unmanned => exact absurd mans present
  | manned working => exact guards.2 item has live
  | gone => exact (guards.2 item has live).imp_right False.elim

theorem Balanced.place (balanced : hall.Balanced capacity skip watch)
    (present : hall.world.worker ≠ .absent) (has : Items.Has hall.world.store item)
    (live : item.status.isTerminal = false) : ∃! place, hall.At item place := by
  obtain ⟨place, there⟩ : ∃ place, hall.At item place := by
    rcases balanced.kept present has live with unserved | hand
    · exact balanced.place_of_unserved unserved
    · exact ⟨.hand, hand⟩
  exact ⟨place, there, fun other there' => balanced.place_unique there' there⟩

theorem present_of_isLive {worker : Worker} (live : worker.isLive = true) :
    worker ≠ .absent ∧ worker ≠ .stopped := by
  cases worker with
  | live task => exact ⟨nofun, nofun⟩
  | absent | stopped => cases live

/-- The worker that has nothing in hand, and nothing to take, has brought to rest whatever was accepted. -/
theorem Balanced.accepted (balanced : hall.Balanced capacity skip watch)
    (live : hall.world.worker.isLive = true) (idle : hall.hand = none)
    (empty : hall.world.lane.waiting = []) {n : Nat} {request : ItemRequest} {index : Int64}
    (found : hall.visits[n]? = some (.added request (.ok index))) :
    ∃ item, Items.Has hall.world.store item ∧ item.index = index ∧ item.status.isTerminal = true := by
  obtain ⟨holder, orderly⟩ := balanced.orderly
  obtain ⟨present, running⟩ := present_of_isLive live
  have accounted := balanced.accounted
  obtain ⟨stage, answered, _, known, records⟩ := orderly.visits n _ found
  cases stage with
  | announced stored answer =>
    rcases answer with error | ⟨⟩
    · cases answered
    cases answered
    have received : stored.index ∈ hall.received := by
      have posted := records.posted
      rw [accounted.posted, empty, accounted.kept running, List.append_nil,
        List.append_nil] at posted
      exact posted
    obtain ⟨item, ⟨fits, held⟩, same⟩ := balanced.proper stored records.filed
    have has : Items.Has hall.world.store item := ⟨_, held, Items.decode_encode fits⟩
    refine ⟨item, has, same, ?_⟩
    cases rest : item.status.isTerminal with
    | true => rfl
    | false =>
      rcases balanced.kept present has rest with unserved | hand
      · exact absurd (same ▸ received) unserved.2
      · cases idle.symm.trans hand
  | _ => cases answered

/-- Whatever its visitors and its worker do, and whatever the gateway answers, as long as the store does not
fail: once a queue has its worker, each item that is not at rest is at one place; the gateway is asked only
by the worker, for the item whose index it has taken from the lane; the lane holds no more than it has room
for; no index is taken from it twice; and when the worker has nothing in hand and the lane is empty, every
item whose add has answered its index is at rest. -/
theorem one_place (clock : Nat) (backend : Backend) (secrets : Nat → Secret) (drawn : Nat)
    (options : Queue.Options) {events : List Event} (steady : ∀ event ∈ events, event.Steady) :
    let hall := run (.build clock backend secrets drawn options) events
    (hall.world.worker ≠ .absent → ∀ item, Items.Has hall.world.store item →
      item.status.isTerminal = false → ∃! place, hall.At item place) ∧
    (∀ before line, before ++ [line] <+: hall.log → line.before.worker ≠ .absent →
      Rightful options.skipProcessing before line) ∧
    hall.world.lane.waiting.length ≤ max 1 options.laneCapacity ∧
    hall.received.Nodup ∧
    (hall.world.worker.isLive = true → hall.hand = none → hall.world.lane.waiting = [] →
      ∀ (n : Nat) request index, hall.visits[n]? = some (.added request (.ok index)) →
        ∃ item, Items.Has hall.world.store item ∧ item.index = index ∧
          item.status.isTerminal = true) := by
  intro hall
  obtain ⟨watch, balanced⟩ : ∃ watch, hall.Balanced (max 1 options.laneCapacity)
      options.skipProcessing watch := balanced_run clock backend secrets drawn options steady
  have accounted := balanced.accounted
  refine ⟨fun present item has live => balanced.place present has live, balanced.calls, ?_, ?_,
    fun live idle empty n request index found => ?_⟩
  · exact accounted.capacity ▸ accounted.bound
  · have distinct := accounted.distinct
    rw [accounted.posted, List.append_assoc, List.nodup_append] at distinct
    exact distinct.1
  · exact balanced.accepted live idle empty found

/-- Of three adds, the lane holding one index, the first goes to the worker, the second waits for it, and the
third is refused. When the worker is done with both, the third is the only one not at rest. -/
theorem one_place_refused :
    let request (name : String) : ItemRequest := .register ⟨name, "", "", ""⟩
    let chance : Chance := ⟨⟨fun _ => .error (.connection ""), none, 5⟩, .ok (.fill 1)⟩
    let turns (n visitor : Nat) : List Event := List.replicate n (.turn visitor chance)
    let works (n : Nat) : List Event := List.replicate n (.work chance)
    let events : List Event := [.run] ++ turns 14 0 ++ [.add (request "a.any") (by decide),
      .add (request "b.any") (by decide), .add (request "c.any") (by decide)] ++ turns 9 1 ++ works 1 ++
      turns 9 2 ++ turns 8 3 ++ [.wait 100] ++ turns 2 3 ++ works 14
    let hall := run (.build 0 (Backend.fresh .sample ⟨7, 1⟩ 0) (fun _ => .fill 1) 0 ⟨1, 100, false, false⟩)
      events
    (∃! place, hall.At (.ofRequest 2 (.fill 1) 5 (request "c.any")) place) ∧ hall.received.Nodup ∧
      ∀ index ∈ hall.received, ∃ item, Items.Has hall.world.store item ∧ item.index = index ∧
        item.status.isTerminal = true := by
  intro request chance turns works events
  have whole := one_place 0 (Backend.fresh .sample ⟨7, 1⟩ 0) (fun _ => .fill 1) 0 ⟨1, 100, false, false⟩
    (show ∀ event ∈ events, event.Steady by decide +kernel)
  extract_lets hall at whole
  obtain ⟨place, -, -, once, accepted⟩ := whole
  have live : hall.world.worker.isLive = true := by decide +kernel
  have idle : hall.hand = none ∧ hall.world.lane.waiting = [] := by decide +kernel
  have received : hall.received = [0, 1] := by decide +kernel
  have first : hall.answered 1 = some (request "a.any", .ok 0) := by decide +kernel
  have second : hall.answered 2 = some (request "b.any", .ok 1) := by decide +kernel
  have refused : Items.Has hall.world.store (.ofRequest 2 (.fill 1) 5 (request "c.any")) :=
    ⟨Items.encode (.ofRequest 2 (.fill 1) 5 (request "c.any")), by decide +kernel, by decide +kernel⟩
  intro hall'
  refine ⟨place (present_of_isLive live).1 _ refused rfl, once, fun index there => ?_⟩
  replace there : index ∈ [0, 1] := received ▸ there
  rcases List.mem_cons.1 there with rfl | there
  · exact accepted live idle.1 idle.2 1 _ _ (found_of_answered first)
  · obtain rfl := List.mem_singleton.1 there
    exact accepted live idle.1 idle.2 2 _ _ (found_of_answered second)

end Hall

end Registrar
