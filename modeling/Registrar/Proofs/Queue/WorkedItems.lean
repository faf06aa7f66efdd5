import Registrar.Proofs.Item.Course
import Registrar.Queue

/-!
Many items, one after the other, while the store does not fail. `workThrough_worked` says that a
worker with some indices drives their items in that order, and `scan_worked` that a resume scan
drives all items that are not at rest: status by status in the order in which it searches, and for
each status in the order of their keys.
-/

namespace Registrar

open Item (Status)
open Ledger (Profile)

/-- The items of some indices are driven, one after the other. -/
inductive Worked (profile : Profile) (faults : Faults) :
    Ground → List Int64 → List Receipt → Ground → Prop where
  | nil {g} : Worked profile faults g [] [] g
  | drive {g item receipts g' final rest later g''} :
      Items.Holds g.store item → Driven profile faults g item receipts g' final →
      Worked profile faults g' rest later g'' →
      Worked profile faults g (item.index :: rest) (receipts ++ later) g''
  | miss {g index rest receipts g'} :
      g.store.get? (Items.key index) = none → Worked profile faults g rest receipts g' →
      Worked profile faults g (index :: rest) receipts g'

/-- The rounds of a program until one is the last, with what they heard and where they end. -/
inductive Repeats {σ α : Type} (round : σ → Program Work (Next σ α)) :
    Backend → σ → List Receipt → α → Backend → Prop where
  | finish {backend state value} :
      (backend.perform (round state)).value = some (.finished value) →
      Repeats round backend state (backend.perform (round state)).receipts value
        (backend.perform (round state)).backend
  | again {backend state next receipts value last} :
      (backend.perform (round state)).value = some (.again next) →
      Repeats round (backend.perform (round state)).backend next receipts value last →
      Repeats round backend state ((backend.perform (round state)).receipts ++ receipts) value last

variable {profile : Profile} {faults : Faults}

theorem Driven.tidy {g g' : Ground} {item final : Item} {receipts : List Receipt}
    (driven : Driven profile faults g item receipts g' final) (held : Items.Holds g.store item)
    (tidy : Items.Tidy g.store) : Items.Tidy g'.store :=
  (driven.frame held).tidy tidy

/-- The work on one index, as a step of the work on several. -/
theorem processIndex_worked {backend : Backend} (within : backend.Within faults)
    (steady : ¬ faults.store) (whole : ¬ faults.breaks) (tidy : Items.Tidy backend.ground.store)
    (index : Int64) :
    let performed := backend.perform (Processor.processIndex false index).run
    performed.backend.Within faults ∧ performed.backend.profile = backend.profile ∧
      Items.Tidy performed.backend.ground.store ∧ (∃ answer, performed.value = some answer) ∧
      ∀ rest later g, Worked backend.profile faults performed.backend.ground rest later g →
        Worked backend.profile faults backend.ground (index :: rest)
          (performed.receipts ++ later) g := by
  intro performed
  cases present : backend.ground.store.get? (Items.key index) with
  | none =>
    obtain ⟨kept, same, finished, silent, ground⟩ :=
      Backend.processIndex_missing within steady present
    refine ⟨kept, same, ground.symm ▸ tidy, ⟨_, finished⟩, fun rest later g worked => ?_⟩
    rw [silent]
    rw [ground] at worked
    exact .miss present worked
  | some record =>
    obtain ⟨item, held, same⟩ := tidy _ _ present (Items.keyStart_isPrefixOf_key index)
    cases Items.key_inj same
    obtain ⟨kept, same, final, finished, driven⟩ :=
      Backend.processIndex_driven within steady whole held
    exact ⟨kept, same, driven.tidy held tidy, ⟨_, finished⟩,
      fun rest later g worked => .drive held driven worked⟩

/-- The work on some indices is the work on each of them in turn. -/
theorem workThrough_worked {backend : Backend} (order : List Int64)
    (within : backend.Within faults) (steady : ¬ faults.store) (whole : ¬ faults.breaks)
    (tidy : Items.Tidy backend.ground.store) :
    let worked := backend.perform (Queue.workThrough false order)
    worked.backend.Within faults ∧ worked.backend.profile = backend.profile ∧
      worked.value = some () ∧
      Worked backend.profile faults backend.ground order worked.receipts worked.backend.ground := by
  induction order generalizing backend with
  | nil => exact ⟨within, rfl, rfl, .nil⟩
  | cons index rest ih =>
    obtain ⟨kept, same, tidy', ⟨answer, finished⟩, worked⟩ :=
      processIndex_worked within steady whole tidy index
    obtain ⟨kept', same', value, later⟩ := ih kept tidy'
    have goes : backend.perform (Queue.workThrough false (index :: rest)) = _ :=
      Backend.perform_bind (f := fun _ => Queue.workThrough false rest) finished
    rw [goes]
    refine ⟨kept', same'.trans same, value, ?_⟩
    rw [same] at later
    rw [Performance.receipts_prepend]
    exact worked _ _ _ later

section

variable {g g' : Ground} {item final : Item} {receipts : List Receipt} {status : Status}

/-- An item at rest is in no bucket that a scan searches. -/
theorem mem_bucket_driven (driven : Driven profile faults g item receipts g' final)
    (held : Items.Holds g.store item) (tidy : Items.Tidy g.store) (live : status.isTerminal = false)
    (other : Item) :
    other ∈ Items.bucket g'.store status ↔
      other ∈ Items.bucket g.store status ∧ other.index ≠ item.index := by
  have frame := driven.frame held
  rw [Items.mem_bucket (frame.tidy tidy), Items.mem_bucket tidy]
  constructor
  · rintro ⟨there, rfl⟩
    have apart : other.index ≠ item.index := by
      intro same
      have ended : other = final := Items.holds_inj there frame.held
        (same.trans (Item.index_eq_of_origin driven.origin).symm)
      rw [ended, driven.terminal] at live
      cases live
    exact ⟨⟨(frame.others other apart).1 there, rfl⟩, apart⟩
  · rintro ⟨⟨there, rfl⟩, apart⟩
    exact ⟨(frame.others other apart).2 there, rfl⟩

theorem bucket_other (driven : Driven profile faults g item receipts g' final)
    (held : Items.Holds g.store item) (tidy : Items.Tidy g.store) (live : status.isTerminal = false)
    (apart : item.status ≠ status) : Items.bucket g'.store status = Items.bucket g.store status := by
  apply Items.eq_of_mem_bucket (Items.sorted_bucket (driven.tidy held tidy) status)
    (Items.sorted_bucket tidy status)
  intro other
  rw [mem_bucket_driven driven held tidy live]
  refine ⟨fun h => h.1, fun there => ⟨there, fun same => ?_⟩⟩
  obtain ⟨held', rfl⟩ := (Items.mem_bucket tidy).1 there
  rw [Items.holds_inj held held' same.symm] at apart
  exact apart rfl

theorem bucket_first (driven : Driven profile faults g item receipts g' final)
    (held : Items.Holds g.store item) (tidy : Items.Tidy g.store) (live : status.isTerminal = false)
    {rest : List Item} (first : Items.bucket g.store status = item :: rest) :
    Items.bucket g'.store status = rest := by
  have sorted := Items.sorted_bucket tidy status
  rw [first] at sorted
  obtain ⟨before, sorted⟩ := List.pairwise_cons.1 sorted
  apply Items.eq_of_mem_bucket (Items.sorted_bucket (driven.tidy held tidy) status) sorted
  intro other
  rw [mem_bucket_driven driven held tidy live, first, List.mem_cons]
  constructor
  · rintro ⟨rfl | there, apart⟩
    · exact absurd rfl apart
    · exact there
  · intro there
    refine ⟨.inr there, fun same => ?_⟩
    have lt := before other there
    rw [same] at lt
    exact absurd lt (List.lt_irrefl _)

end

/-- An item that a search picks is one that the store has. -/
theorem Resume.stored_of_pick {tried : List Int64} {bucket : Status} {store : Store} {item : Item}
    (picked : pick tried (Items.select bucket (store.scan Items.keyStart)) = some item) :
    ∃ key record, store.get? key = some record ∧ Items.keyStart.isPrefixOf key = true ∧
      Item.layout.decode record = .ok item := by
  obtain ⟨⟨key, record, found, decoded⟩, _⟩ :=
    Items.mem_select.1 (List.mem_of_find?_eq_some picked)
  obtain ⟨there, begins⟩ := Store.mem_scan.1 found
  exact ⟨key, record, there, begins, decoded⟩

/-- One round of a resume scan, request by request. -/
theorem round_eq (skip : Bool) (bucket : Status) (later : List Status) (tried : List Int64) :
    Resume.round skip ⟨bucket :: later, tried⟩ = .ask (.store (.scan Items.keyStart)) fun
      | .error error => .done (.finished (.error (.store error)))
      | .ok entries =>
        match Resume.pick tried (Items.select bucket entries) with
        | none => .done (.again ⟨later, []⟩)
        | some item => (Processor.process skip item).run.bind fun _ =>
            .done (.again ⟨bucket :: later, item.index :: tried⟩) := by
  refine congrArg (Program.ask _) (funext fun answer => ?_)
  rcases answer with error | entries
  · rfl
  · rfl

section

variable {backend : Backend} {bucket : Status} {later : List Status} {tried : List Int64}

/-- A search that finds nothing new goes on to the next status. -/
theorem round_empty (within : backend.Within faults) (steady : ¬ faults.store)
    (none : Resume.pick tried (Items.bucket backend.ground.store bucket) = none) :
    let performed := backend.perform (Resume.round false ⟨bucket :: later, tried⟩)
    performed.backend.Within faults ∧ performed.backend.profile = backend.profile ∧
      performed.value = some (.again ⟨later, []⟩) ∧ performed.receipts = [] ∧
      performed.backend.ground = backend.ground := by
  obtain ⟨after, served, kept, same, ground⟩ := Backend.serve_store within steady (.scan Items.keyStart)
  have found : Resume.pick tried
      (Items.select bucket (backend.ground.store.serve (.scan Items.keyStart)).1) = .none := none
  rw [round_eq]
  intro performed
  have performing : performed = (after.perform (.done (.again ⟨later, []⟩))).prepend
      [⟨.store (.scan Items.keyStart), .ok (backend.ground.store.scan Items.keyStart)⟩] := by
    refine (Backend.perform_answered served).trans ?_
    dsimp only
    rw [found]
    rfl
  rw [performing]
  exact ⟨kept, same, rfl, rfl, ground⟩

/-- A search that finds an item drives it. -/
theorem round_found {item : Item} (within : backend.Within faults) (steady : ¬ faults.store)
    (whole : ¬ faults.breaks) (held : Items.Holds backend.ground.store item)
    (found : Resume.pick tried (Items.bucket backend.ground.store bucket) = some item) :
    let performed := backend.perform (Resume.round false ⟨bucket :: later, tried⟩)
    performed.backend.Within faults ∧ performed.backend.profile = backend.profile ∧
      performed.value = some (.again ⟨bucket :: later, item.index :: tried⟩) ∧
      ∃ final, Driven backend.profile faults backend.ground item performed.receipts
        performed.backend.ground final := by
  obtain ⟨after, served, kept, same, ground⟩ := Backend.serve_store within steady (.scan Items.keyStart)
  have picked : Resume.pick tried
      (Items.select bucket (backend.ground.store.serve (.scan Items.keyStart)).1) = some item := found
  have unchanged : after.ground = backend.ground := ground
  have held' : Items.Holds after.ground.store item := unchanged ▸ held
  obtain ⟨kept', same', final, finished, driven⟩ := process_driven kept steady whole held'
  rw [round_eq]
  intro performed
  have performing : performed =
      (((after.perform (Processor.process false item).run).backend.perform
        (.done (.again ⟨bucket :: later, item.index :: tried⟩))).prepend
          (after.perform (Processor.process false item).run).heard).prepend
        [⟨.store (.scan Items.keyStart), .ok (backend.ground.store.scan Items.keyStart)⟩] := by
    refine (Backend.perform_answered served).trans ?_
    dsimp only
    rw [picked]
    dsimp only
    rw [Backend.perform_bind finished]
    rfl
  have heard : performed.receipts =
      (after.perform (Processor.process false item).run).receipts := by
    rw [performing, Performance.receipts_prepend, Performance.receipts_prepend]
    exact List.append_nil _
  rw [heard, performing]
  refine ⟨kept', same'.trans same, rfl, final, ?_⟩
  rw [same, unchanged] at driven
  exact driven

end

/-- A scan from some buckets on drives the items of these buckets. -/
def Sweeps (faults : Faults) (backend : Backend) (state : Resume) (order : List Item) : Prop :=
  ∃ receipts last, Repeats (Resume.round false) backend state receipts (.ok ()) last ∧
    last.Within faults ∧ last.profile = backend.profile ∧
    Worked backend.profile faults backend.ground (order.map (·.index)) receipts last.ground

/-- The items that a scan from some buckets on is to find. -/
def pending (store : Store) (buckets : List Status) : List Item :=
  buckets.flatMap (Items.bucket store)

/-- The search in one bucket, after which the scan goes on as it does from the next one. -/
theorem bucket_sweeps {bucket : Status} {later : List Status} (steady : ¬ faults.store)
    (whole : ¬ faults.breaks) (live : ∀ status ∈ bucket :: later, status.isTerminal = false)
    (apart : bucket ∉ later)
    (next : ∀ backend : Backend, backend.Within faults → Items.Tidy backend.ground.store →
      Sweeps faults backend ⟨later, []⟩ (pending backend.ground.store later))
    {items : List Item} {backend : Backend} {tried : List Int64} (within : backend.Within faults)
    (tidy : Items.Tidy backend.ground.store)
    (searched : Items.bucket backend.ground.store bucket = items)
    (untried : ∀ item ∈ items, item.index ∉ tried) :
    Sweeps faults backend ⟨bucket :: later, tried⟩
      (items ++ pending backend.ground.store later) := by
  induction items generalizing backend tried with
  | nil =>
    have none : Resume.pick tried (Items.bucket backend.ground.store bucket) = none := by
      rw [searched]
      rfl
    obtain ⟨kept, same, finished, silent, ground⟩ :=
      @round_empty _ _ _ later _ within steady none
    obtain ⟨receipts, last, repeats, within', same', worked⟩ := next _ kept (ground.symm ▸ tidy)
    rw [same, ground] at worked
    have again := Repeats.again finished repeats
    rw [silent] at again
    exact ⟨receipts, last, again, within', same'.trans same, worked⟩
  | cons item rest ih =>
    have there : item ∈ Items.bucket backend.ground.store bucket := by
      rw [searched]
      exact List.mem_cons_self
    obtain ⟨held, status⟩ := (Items.mem_bucket tidy).1 there
    have found : Resume.pick tried (Items.bucket backend.ground.store bucket) = some item := by
      rw [searched]
      unfold Resume.pick
      rw [List.find?_cons_of_pos]
      simpa using untried item List.mem_cons_self
    obtain ⟨kept, same, finished, final, driven⟩ :=
      @round_found _ _ _ later _ _ within steady whole held found
    have searching := bucket_first driven held tidy (live _ List.mem_cons_self) searched
    have waiting : pending (backend.perform (Resume.round false ⟨bucket :: later, tried⟩)).backend.ground.store
        later = pending backend.ground.store later := by
      unfold pending
      refine List.flatMap_congr fun status' there' => ?_
      refine bucket_other driven held tidy (live _ (List.mem_cons_of_mem _ there')) ?_
      rintro rfl
      rw [status] at there'
      exact apart there'
    have untried' : ∀ other ∈ rest, other.index ∉ item.index :: tried := by
      intro other inRest
      have other' : other ∈ Items.bucket backend.ground.store bucket := by
        rw [searched]
        exact List.mem_cons_of_mem _ inRest
      have distinct : other.index ≠ item.index := by
        rw [← searching] at inRest
        exact ((mem_bucket_driven driven held tidy (live _ List.mem_cons_self) other).1 inRest).2
      rw [List.mem_cons, not_or]
      exact ⟨distinct, untried other (List.mem_cons_of_mem _ inRest)⟩
    obtain ⟨receipts, last, repeats, within', same', worked⟩ :=
      ih kept (driven.tidy held tidy) searching untried'
    rw [same, waiting] at worked
    exact ⟨_, last, .again finished repeats, within', same'.trans same, .drive held driven worked⟩

/-- A scan drives all items of its buckets, one bucket after the other. -/
theorem scan_worked {buckets : List Status} {backend : Backend} (within : backend.Within faults)
    (steady : ¬ faults.store) (whole : ¬ faults.breaks)
    (live : ∀ status ∈ buckets, status.isTerminal = false) (apart : buckets.Nodup)
    (tidy : Items.Tidy backend.ground.store) :
    Sweeps faults backend ⟨buckets, []⟩ (pending backend.ground.store buckets) := by
  induction buckets generalizing backend with
  | nil => exact ⟨_, _, .finish rfl, within, rfl, .nil⟩
  | cons bucket later ih =>
    obtain ⟨apart, apart'⟩ := List.nodup_cons.1 apart
    refine bucket_sweeps steady whole live apart (fun backend within tidy => ?_) within tidy rfl
      (fun _ _ => List.not_mem_nil)
    exact ih within (fun status there => live status (List.mem_cons_of_mem _ there)) apart' tidy

end Registrar
