import Mathlib.Data.List.Nodup
import Registrar.Proofs.Hall.AddStages

/-!
Order in a hall. At most one visitor is assigning an index, and nobody else changes which keys of items
there are meanwhile; so what it has counted stays right until its own item is stored. `Line.Regular`
says this of one request, `Known` what an add may rely on at each stage, and `Orderly` gathers what holds
of a hall at any time, whatever its visitors and its worker do and however often the store fails.
-/

namespace Registrar

namespace Hall

/-- The store after the request. -/
def Line.after (line : Line) : Store := line.exchange.on line.before.store

/-- Whether a request that was answered has changed the store. -/
def Line.changes (line : Line) : Bool :=
  match line.exchange with
  | ⟨.work (.store (.put _ _)), .ok ()⟩ | ⟨.work (.store (.erase _)), .ok ()⟩ => true
  | _ => false

/-- The item that was put under a key of items that was free. -/
def Line.filed? (line : Line) : Option Item :=
  match line.exchange with
  | ⟨.work (.store (.put key record)), .ok ()⟩ =>
    if Items.keyStart.isPrefixOf key && !line.before.store.contains key then
      (Item.layout.decode record).toOption
    else none
  | _ => none

/-- The index that was announced, and what the lane answered. -/
def Line.told? (line : Line) : Option (Int64 × Except QueueError Unit) :=
  match line.exchange with
  | ⟨.announce index, answer⟩ => some (index, answer)
  | _ => none

/-- The time of day that was read. -/
def Line.time? (line : Line) : Option UInt64 :=
  match line.exchange with
  | ⟨.work .now, (date : UInt64)⟩ => some date
  | _ => none

/-- The requests of a visitor. -/
def linesOf (log : List Line) (n : Nat) : List Line := log.filter (·.caller = .visitor n)

/-- The items that were stored under free keys, in that order. -/
def filed (log : List Line) : List Item := log.filterMap (·.filed?)

/-- The times of day that were read, in that order. -/
def times (log : List Line) : List UInt64 := log.filterMap (·.time?)

/-- The clock did not go back. -/
def Timely (log : List Line) : Prop := (times log).Pairwise (· ≤ ·)

/-- What a visitor's requests have come to, where it has stored `item` and announced it with an answer. -/
structure Records (log : List Line) (n : Nat) (item : Option Item)
    (told : Option (Int64 × Except QueueError Unit)) : Prop where
  changes : ((linesOf log n).filter (·.changes)).map (·.filed?) = item.toList.map some
  told : (linesOf log n).filterMap (·.told?) = told.toList

/-- A request that leaves the keys of items as they are, or that stores a new item under the next
index. -/
structure Line.Regular (line : Line) : Prop where
  filed : ∀ item, line.filed? = some item →
    line.exchange = ⟨.work (.store (.put (Items.key item.index) (Items.encode item))), .ok ()⟩ ∧
      item.index = Queue.indexAfter (line.before.store.count Items.keyStart) ∧
      line.before.store.contains (Items.key item.index) = false
  kept : line.filed? = none → ∀ k, Items.keyStart.isPrefixOf k = true →
    line.after.contains k = line.before.store.contains k
  grows : ∀ k, line.before.store.contains k = true → line.after.contains k = true

end Hall

/-- The error is one of the lane. -/
def QueueError.isOfLane : QueueError → Bool
  | .laneFull _ | .laneClosed => true
  | _ => false

/-- The item is one that a request begins as. -/
def Item.For (item : Item) (request : ItemRequest) : Prop :=
  ∃ secret date, item = .ofRequest item.index secret date request

namespace Hall

/-- An item that is about to be stored: its index is the next one, and its date is no earlier than those
of the items stored so far. -/
structure Next (store : Store) (log : List Line) (request : ItemRequest) (item : Item) : Prop where
  own : item.For request
  index : item.index = Queue.indexAfter (store.count Items.keyStart)
  read : item.dateCreated ∈ times log
  latest : Timely log → ∀ other ∈ filed log, other.dateCreated ≤ item.dateCreated

/-- A visitor learnt that the index after the last one is not free. -/
def Exhausted (log : List Line) (n : Nat) : Prop :=
  ∃ line ∈ linesOf log n, line.before.store.contains
    (Items.key (Queue.indexAfter (line.before.store.count Items.keyStart))) = true

/-- What is known of an error that an add ends with before its item is stored. -/
def Fails (log : List Line) (n : Nat) (error : QueueError) : Prop :=
  error.isOfLane = false ∧ ∀ index, error = .duplicateIndex index → Exhausted log n

end Hall

open Hall (linesOf filed times Timely Records)

/-- What is known of an add at a stage. -/
def Adding.Known (request : ItemRequest) (store : Store) (log : List Hall.Line) (n : Nat) : Adding → Prop
  | .dating _ count => count = store.count Items.keyStart
  | .checking item => Hall.Next store log request item
  | .putting item =>
    Hall.Next store log request item ∧ store.contains (Items.key item.index) = false
  | .unlocking (.ok item) | .announcing item => item.For request
  | .unlocking (.error error) | .refused error => Hall.Fails log n error
  | .announced item answer => item.For request ∧
      ∀ error, answer = .error error → error = .laneFull item.index ∨ error = .laneClosed
  | _ => True

/-- A task that adds nothing. -/
structure Task.Tame {σ α : Type} (task : Task σ α) (store : Store) : Prop where
  program : ∃ seen, task.program.Abides Tames (fun _ _ => True) seen ∧
    ∀ key, seen = some key → store.contains key = true
  round : ∀ state, (task.round state).Abides Tames (fun _ _ => True) none

/-- The request of an add. -/
def Visit.request? : Visit → Option ItemRequest
  | .adding request _ | .added request _ => some request
  | _ => none

/-- A visit in order, where `holder` is the visitor who is assigning an index. -/
def Visit.InOrder (store : Store) (log : List Hall.Line) (holder : Option Nat) (n : Nat) : Visit → Prop
  | .adding request task => request.Fits ∧ ∃ stage,
      task.program.Abides (Adds request)
        (fun next stage => ∃ answer, next = .finished answer ∧ stage.answer = some answer) stage ∧
      (stage.holds = true ↔ holder = some n) ∧ stage.Known request store log n ∧
      Records log n stage.filed stage.told
  | .added request answer => ∃ stage : Adding, stage.answer = some answer ∧ holder ≠ some n ∧
      stage.Known request store log n ∧ Records log n stage.filed stage.told
  | .running task => task.Tame store ∧ holder ≠ some n
  | .closing task => task.Tame store ∧ holder ≠ some n
  | .ran _ | .closed _ => holder ≠ some n

/-- What the requests of a hall have come to. -/
structure Hall.Sound (store : Store) (log : List Hall.Line) : Prop where
  lines : ∀ line ∈ log, line.Regular
  there : ∀ item ∈ filed log, store.contains (Items.key item.index) = true
  distinct : ((filed log).map (·.index)).Nodup
  dated : ∀ item ∈ filed log, item.dateCreated ∈ times log
  sorted : Timely log → (filed log).Pairwise fun a b => a.dateCreated ≤ b.dateCreated

/-- A hall in order, where `holder` is the visitor who is assigning an index. -/
structure Hall.Orderly (hall : Hall) (holder : Option Nat) : Prop where
  lock : hall.world.locked = holder.isSome
  holding : ∀ n, holder = some n → n < hall.visits.length
  sound : Hall.Sound hall.world.store hall.log
  visits : ∀ n (visit : Visit), hall.visits[n]? = some visit →
    visit.InOrder hall.world.store hall.log holder n
  worker : ∀ task, hall.world.worker = .live task → task.Tame hall.world.store
  callers : ∀ line ∈ hall.log, ∀ n, line.caller = .visitor n → n < hall.visits.length
  authors : ∀ line ∈ hall.log, line.filed?.isSome = true ∨ line.told?.isSome = true →
    ∃ n request, line.caller = .visitor n ∧ hall.visits[n]?.bind Visit.request? = some request

section

variable {log : List Hall.Line} {line : Hall.Line} {n : Nat} {item : Item} {request : ItemRequest}
  {store : Store} {holder holder' : Option Nat}

theorem linesOf_own (own : line.caller = .visitor n) :
    linesOf (log ++ [line]) n = linesOf log n ++ [line] := by
  unfold linesOf
  rw [List.filter_append, List.filter_singleton, decide_eq_true own, cond_true]

theorem linesOf_other (other : line.caller ≠ .visitor n) :
    linesOf (log ++ [line]) n = linesOf log n := by
  unfold linesOf
  rw [List.filter_append, List.filter_singleton, decide_eq_false other, cond_false, List.append_nil]

theorem linesOf_mono {other : Hall.Line} (there : other ∈ linesOf log n) :
    other ∈ linesOf (log ++ [line]) n :=
  List.mem_filter.2 ⟨List.mem_append_left _ (List.mem_filter.1 there).1, (List.mem_filter.1 there).2⟩

theorem filed_append : filed (log ++ [line]) = filed log ++ line.filed?.toList := by
  unfold filed
  rw [List.filterMap_append]
  cases h : line.filed? <;> simp [h]

theorem times_append : times (log ++ [line]) = times log ++ line.time?.toList := by
  unfold times
  rw [List.filterMap_append]
  cases h : line.time? <;> simp [h]

theorem Hall.Timely.before (timely : Timely (log ++ [line])) : Timely log := by
  unfold Timely at timely ⊢
  rw [times_append] at timely
  exact (List.pairwise_append.1 timely).1

namespace Hall.Records

variable {told : Option (Int64 × Except QueueError Unit)} {item : Option Item}

theorem other (records : Records log n item told) (other : line.caller ≠ .visitor n) :
    Records (log ++ [line]) n item told := by
  constructor
  · rw [linesOf_other other, records.changes]
  · rw [linesOf_other other, records.told]

theorem silent (records : Records log n item told) (own : line.caller = .visitor n)
    (unchanged : line.changes = false) (untold : line.told? = none) :
    Records (log ++ [line]) n item told := by
  constructor
  · rw [linesOf_own own, List.filter_append, List.filter_singleton, unchanged, cond_false,
      List.append_nil, records.changes]
  · rw [linesOf_own own, List.filterMap_append, records.told]
    simp [untold]

theorem file {item : Item} (records : Records log n none told) (own : line.caller = .visitor n)
    (changed : line.changes = true) (filed : line.filed? = some item) (untold : line.told? = none) :
    Records (log ++ [line]) n (some item) told := by
  constructor
  · rw [linesOf_own own, List.filter_append, List.filter_singleton, changed, cond_true,
      List.map_append, records.changes, List.map_singleton, filed]
    rfl
  · rw [linesOf_own own, List.filterMap_append, records.told]
    simp [untold]

theorem tell {answer : Int64 × Except QueueError Unit} (records : Records log n item none)
    (own : line.caller = .visitor n) (unchanged : line.changes = false)
    (answered : line.told? = some answer) : Records (log ++ [line]) n item (some answer) := by
  constructor
  · rw [linesOf_own own, List.filter_append, List.filter_singleton, unchanged, cond_false,
      List.append_nil, records.changes]
  · rw [linesOf_own own, List.filterMap_append, records.told]
    simp [answered]

end Hall.Records

namespace Hall

theorem Exhausted.append (exhausted : Exhausted log n) : Exhausted (log ++ [line]) n := by
  obtain ⟨other, there, taken⟩ := exhausted
  exact ⟨other, linesOf_mono there, taken⟩

theorem Fails.append {error : QueueError} (fails : Fails log n error) :
    Fails (log ++ [line]) n error :=
  ⟨fails.1, fun index same => (fails.2 index same).append⟩

/-- While no item is stored, what comes next stays the same. -/
theorem Next.append (next : Next line.before.store log request item) (regular : line.Regular)
    (quiet : line.filed? = none) : Next line.after (log ++ [line]) request item where
  own := next.own
  index := next.index.trans (congrArg Queue.indexAfter (Store.count_congr (regular.kept quiet)).symm)
  read := by
    rw [times_append]
    exact List.mem_append_left _ next.read
  latest timely := by
    rw [filed_append, quiet, Option.toList_none, List.append_nil]
    exact next.latest timely.before

end Hall

/-- What is known of an add stays so through the requests of others, as long as nothing is stored while
the add is assigning an index. -/
theorem Adding.Known.append {stage : Adding} (known : stage.Known request line.before.store log n)
    (regular : line.Regular) (quiet : stage.holds = true → line.filed? = none) :
    stage.Known request line.after (log ++ [line]) n := by
  cases stage with
  | dating secret count => exact known.trans (Store.count_congr (regular.kept (quiet rfl))).symm
  | checking item => exact Hall.Next.append known regular (quiet rfl)
  | putting item =>
    exact ⟨known.1.append regular (quiet rfl),
      (regular.kept (quiet rfl) _ (Items.keyStart_isPrefixOf_key _)).trans known.2⟩
  | unlocking created =>
    cases created with
    | ok item => exact known
    | error error => exact Hall.Fails.append known
  | refused error => exact Hall.Fails.append known
  | announcing item | announced item answer => exact known
  | drawing | locking secret | counting secret => trivial

theorem Task.Tame.append {σ α : Type} {task : Task σ α} (tame : task.Tame line.before.store)
    (regular : line.Regular) : task.Tame line.after := by
  obtain ⟨⟨seen, abides, present⟩, round⟩ := tame
  exact ⟨⟨seen, abides, fun key same => regular.grows key (present key same)⟩, round⟩

/-- A visit stays in order through the requests of others. -/
theorem Visit.InOrder.append {visit : Visit} (inOrder : visit.InOrder line.before.store log holder n)
    (regular : line.Regular) (other : line.caller ≠ .visitor n)
    (holds : holder' = some n ↔ holder = some n) (quiet : holder = some n → line.filed? = none) :
    visit.InOrder line.after (log ++ [line]) holder' n := by
  cases visit with
  | adding request task =>
    obtain ⟨fits, stage, abides, locks, known, records⟩ := inOrder
    exact ⟨fits, stage, abides, locks.trans holds.symm,
      known.append regular fun held => quiet (locks.1 held), records.other other⟩
  | added request answer =>
    obtain ⟨stage, answered, free, known, records⟩ := inOrder
    refine ⟨stage, answered, mt holds.1 free, known.append regular fun held => ?_, records.other other⟩
    cases held.symm.trans (Adding.holds_of_answer answered)
  | running task | closing task => exact ⟨inOrder.1.append regular, mt holds.1 inOrder.2⟩
  | ran answer | closed answer => exact mt holds.1 inOrder

namespace Hall.Sound

theorem nothing (store : Store) : Sound store [] where
  lines _ absent := by cases absent
  there _ absent := by cases absent
  distinct := List.nodup_nil
  dated _ absent := by cases absent
  sorted _ := List.Pairwise.nil

/-- What a regular request comes to. -/
theorem append (sound : Sound line.before.store log) (regular : line.Regular)
    (next : ∀ item, line.filed? = some item → ∃ request, Next line.before.store log request item) :
    Sound line.after (log ++ [line]) where
  lines other there := by
    rcases List.mem_append.1 there with before | last
    · exact sound.lines other before
    · cases List.mem_singleton.1 last
      exact regular
  there item there := by
    rw [filed_append] at there
    rcases List.mem_append.1 there with before | last
    · exact regular.grows _ (sound.there item before)
    · obtain ⟨same, _, _⟩ := regular.filed item (Option.mem_toList.1 last)
      unfold Line.after
      rw [same]
      exact (Store.contains_put ..).trans (by simp)
  distinct := by
    rw [filed_append, List.map_append]
    cases new : line.filed? with
    | none => simpa using sound.distinct
    | some item =>
      have free := (regular.filed item new).2.2
      rw [Option.toList_some, List.map_singleton, List.nodup_append]
      refine ⟨sound.distinct, List.nodup_singleton _, fun index there index' last same => ?_⟩
      cases List.mem_singleton.1 last
      obtain ⟨other, stored, rfl⟩ := List.mem_map.1 there
      rw [← same, sound.there other stored] at free
      cases free
  dated item there := by
    rw [times_append]
    rw [filed_append] at there
    rcases List.mem_append.1 there with before | last
    · exact List.mem_append_left _ (sound.dated item before)
    · obtain ⟨request, next⟩ := next item (Option.mem_toList.1 last)
      exact List.mem_append_left _ next.read
  sorted timely := by
    rw [filed_append, List.pairwise_append]
    refine ⟨sound.sorted timely.before, ?_, fun other there item last => ?_⟩
    · cases line.filed? <;> simp
    · obtain ⟨request, next⟩ := next item (Option.mem_toList.1 last)
      exact next.latest timely.before other there

end Hall.Sound

namespace Hall

/-- A request that changes nothing stores no item. -/
theorem Line.still {line : Line} (unchanged : line.changes = false) :
    line.after = line.before.store ∧ line.filed? = none := by
  obtain ⟨caller, world, request, answer⟩ := line
  cases request with
  | work request =>
    cases request with
    | now | gateway => exact ⟨rfl, rfl⟩
    | store request =>
      cases answer with
      | error error => exact ⟨rfl, by cases request <;> rfl⟩
      | ok value =>
        cases request with
        | put key record | erase key => cases unchanged
        | _ => exact ⟨rfl, rfl⟩
  | _ => exact ⟨rfl, rfl⟩

theorem Line.regular_of_still {line : Line} (unchanged : line.changes = false) : line.Regular := by
  obtain ⟨same, none⟩ := Line.still unchanged
  refine ⟨fun item absent => ?_, fun _ k _ => by rw [same], fun k there => by rw [same]; exact there⟩
  cases none.symm.trans absent

theorem Line.changes_of_filed {line : Line} {item : Item} (files : line.filed? = some item) :
    line.changes = true := by
  cases changes : line.changes with
  | true => rfl
  | false => cases (Line.still changes).2.symm.trans files

/-- A visitor who has changed the store has stored its item, and has changed nothing else. -/
theorem Records.sole {item : Option Item} {told : Option (Int64 × Except QueueError Unit)} {line : Line}
    (records : Records log n item told) (there : line ∈ linesOf log n) (changes : line.changes = true) :
    (linesOf log n).filter (·.changes) = [line] ∧ line.filed? = item ∧ item.isSome = true := by
  have found : line ∈ (linesOf log n).filter (·.changes) := List.mem_filter.2 ⟨there, changes⟩
  have changed := records.changes
  cases item with
  | none =>
    rw [List.map_eq_nil_iff.1 changed] at found
    cases found
  | some item =>
    obtain ⟨only, same, files⟩ := List.map_eq_singleton_iff.1 changed
    rw [same] at found
    cases List.mem_singleton.1 found
    exact ⟨same, files, rfl⟩

theorem Records.filer {item : Item} {told : Option (Int64 × Except QueueError Unit)}
    (records : Records log n (some item) told) :
    ∃ line ∈ linesOf log n, line.filed? = some item := by
  obtain ⟨line, same, files⟩ := List.map_eq_singleton_iff.1 records.changes
  have found : line ∈ (linesOf log n).filter (·.changes) := same ▸ List.mem_cons_self
  exact ⟨line, (List.mem_filter.1 found).1, files⟩

/-- The requests that stored the items. -/
theorem map_filings (log : List Line) :
    (log.filter (·.filed?.isSome)).map (·.filed?) = (filed log).map some := by
  induction log with
  | nil => rfl
  | cons line rest ih =>
    unfold filed at ih ⊢
    cases files : line.filed? <;> simp [files, ih]

/-- No two requests store an item under the same index. -/
theorem Sound.unique {a b : Line} {x y : Item} (sound : Sound store log) (ha : a ∈ log) (hb : b ∈ log)
    (fa : a.filed? = some x) (fb : b.filed? = some y) (same : x.index = y.index) : a = b := by
  have distinct : ((log.filter (·.filed?.isSome)).map fun line =>
      line.filed?.map (·.index)).Nodup := by
    have mapped : (log.filter (·.filed?.isSome)).map (fun line => line.filed?.map (·.index)) =
        ((filed log).map (·.index)).map some := by
      rw [List.map_map, ← Function.comp_def, ← List.map_map, map_filings, List.map_map]
      rfl
    rw [mapped]
    exact sound.distinct.map fun _ _ => Option.some.inj
  refine List.inj_on_of_nodup_map distinct (List.mem_filter.2 ⟨ha, by rw [fa]; rfl⟩)
    (List.mem_filter.2 ⟨hb, by rw [fb]; rfl⟩) ?_
  rw [fa, fb, Option.map_some, Option.map_some, same]

end Hall

theorem Adding.Known.own {request : ItemRequest} {store : Store} {log : List Hall.Line} {n : Nat}
    {stage : Adding} {item : Item} (known : stage.Known request store log n)
    (filed : stage.filed = some item) : item.For request := by
  cases stage with
  | unlocking created =>
    cases created with
    | ok item' =>
      cases filed
      exact known
    | error error => cases filed
  | announcing item' =>
    cases filed
    exact known
  | announced item' answer =>
    cases filed
    exact known.1
  | _ => cases filed

/-- An item that an add has stored has just begun. -/
theorem Item.For.initial {item : Item} {request : ItemRequest} (own : item.For request) :
    item.status = .initial := by
  obtain ⟨secret, date, same⟩ := own
  rw [same]
  cases request <;> rfl

/-- How far an add is may be a stage that its visit shows. -/
def Visit.Shows (visit : Visit) (request : ItemRequest) (stage : Adding) : Prop :=
  (∃ task, visit = .adding request task) ∨
    ∃ answer, visit = .added request answer ∧ stage.answer = some answer

/-- What is recorded of an add at any time. -/
theorem Visit.InOrder.records {store : Store} {log : List Hall.Line} {holder : Option Nat} {n : Nat}
    {visit : Visit} {request : ItemRequest} (inOrder : visit.InOrder store log holder n)
    (asked : visit.request? = some request) :
    ∃ stage : Adding, visit.Shows request stage ∧ stage.Known request store log n ∧
      Records log n stage.filed stage.told := by
  cases visit with
  | adding request' task =>
    cases asked
    obtain ⟨_, stage, _, _, known, records⟩ := inOrder
    exact ⟨stage, .inl ⟨task, rfl⟩, known, records⟩
  | added request' answer =>
    cases asked
    obtain ⟨stage, answered, _, known, records⟩ := inOrder
    exact ⟨stage, .inr ⟨answer, rfl, answered⟩, known, records⟩
  | _ => cases asked

/-- Whoever has stored an item, or has announced one, is adding a request. -/
theorem Hall.Orderly.author {hall : Hall} {holder : Option Nat} (orderly : hall.Orderly holder)
    {line : Hall.Line} (there : line ∈ hall.log)
    (marked : line.filed?.isSome = true ∨ line.told?.isSome = true) :
    ∃ (n : Nat) (visit : Visit) (request : ItemRequest) (stage : Adding), line ∈ linesOf hall.log n ∧
      hall.visits[n]? = some visit ∧ visit.Shows request stage ∧
      stage.Known request hall.world.store hall.log n ∧ Records hall.log n stage.filed stage.told := by
  obtain ⟨n, request, called, asked⟩ := orderly.authors line there marked
  obtain ⟨visit, found, asked⟩ := Option.bind_eq_some_iff.1 asked
  obtain ⟨stage, shows, known, records⟩ := (orderly.visits n visit found).records asked
  exact ⟨n, visit, request, stage, List.mem_filter.2 ⟨there, decide_eq_true called⟩, found, shows, known,
    records⟩

end

end Registrar
