import Registrar.Proofs.Hall.WorkStages
import Registrar.Proofs.Resume.Drain

/-!
Who looks after an item. `Serving` follows the work on the item of one index through a store that does
not fail and that others add items to; `Kept` says that every item that is not at rest is either as its
add has stored it or somebody's charge.
-/

namespace Registrar

open Item (Status)
open Hall (filed)

namespace Items

/-- The record under the key of an index is that of an item with this index. -/
def Proper (store : Store) (index : Int64) : Prop := ∃ item, Holds store item ∧ item.index = index

variable {store after : Store} {item : Item} {index : Int64}

theorem Proper.contains (proper : Proper store index) : store.contains (key index) = true := by
  obtain ⟨item, held, rfl⟩ := proper
  exact Store.contains_iff.2 ⟨_, held.2⟩

theorem Has.congr (has : Has store item)
    (same : after.get? (key item.index) = store.get? (key item.index)) : Has after item := by
  obtain ⟨record, there, decoded⟩ := has
  exact ⟨record, same.trans there, decoded⟩

theorem Proper.congr (proper : Proper store index)
    (same : after.get? (key index) = store.get? (key index)) : Proper after index := by
  obtain ⟨item, held, rfl⟩ := proper
  exact ⟨item, ⟨held.1, same.trans held.2⟩, rfl⟩

end Items

/-- How far the work on the item of an index has come. The item in hand is the one in the store, or is not
at rest. -/
structure Serving (store : Store) (index : Int64) (stage : Stage) : Prop where
  hand : ∀ item, stage.item = some item →
    item.index = index ∧ item.Fits ∧ (Items.Has store item ∨ item.status.isTerminal = false)
  writing : ∀ written, stage.written = some written → written.index = index ∧ written.Fits

namespace Serving

variable {store after : Store} {index : Int64} {stage stage' : Stage} {item : Item} {skip : Bool}
  {exchange : Exchange}

/-- The work on an item begins with the item in hand. -/
theorem first (fits : item.Fits) (stored : Items.Has store item ∨ item.status.isTerminal = false) :
    Serving store item.index (.held item none) where
  hand _ same := by
    cases same
    exact ⟨rfl, fits, stored⟩
  writing _ absent := by cases absent

/-- Where only other records change, the work goes on. -/
theorem congr (serving : Serving store index stage)
    (same : ∀ item, Items.Has store item → Items.Has after item) : Serving after index stage where
  hand item hand := by
    obtain ⟨own, fits, stored⟩ := serving.hand item hand
    exact ⟨own, fits, stored.imp_left (same item)⟩
  writing := serving.writing

theorem keeps (serving : Serving store index stage) (conducts : Conducts skip stage exchange stage')
    (faithful : exchange.Faithful store) : Serving (exchange.on store) index stage' := by
  obtain ⟨item, hand, effect⟩ := conducts.effect faithful
  obtain ⟨own, fits, stored⟩ := serving.hand item hand
  generalize exchange.on store = after at effect ⊢
  have holding : ∀ {after : Store} {stage : Stage},
      stage.item = some item → (Items.Has store item → Items.Has after item) →
      ∀ other, stage.item = some other → other.index = index ∧ other.Fits ∧
        (Items.Has after other ∨ other.status.isTerminal = false) := by
    intro after stage same stays other same'
    cases same.symm.trans same'
    exact ⟨own, fits, stored.imp_left stays⟩
  cases effect with
  | stay hand' none =>
    exact ⟨holding hand' id, fun written same => by cases none.symm.trans same⟩
  | note hand' none =>
    exact ⟨holding hand' fun has => has.put (Items.key_ne_nonce _ _),
      fun written same => by cases none.symm.trans same⟩
  | date same =>
    refine ⟨holding rfl id, fun written same' => ?_⟩
    cases same'
    exact ⟨(Item.index_eq_of_origin same).trans own, (Item.fits_iff_of_origin same).2 fits⟩
  | check => exact serving
  | lose => exact ⟨fun _ absent => (by cases absent), fun _ absent => by cases absent⟩
  | @write written =>
    obtain ⟨index', fits'⟩ := serving.writing written rfl
    refine ⟨fun other same => ?_, fun _ absent => by cases absent⟩
    cases same
    refine ⟨index', fits', .inl ?_⟩
    rw [own.trans index'.symm]
    exact Items.has_withItem fits'

/-- The work on an item touches no other item. -/
theorem others (serving : Serving store index stage) (conducts : Conducts skip stage exchange stage')
    (faithful : exchange.Faithful store) {k : Bytes} (begins : Items.keyStart.isPrefixOf k = true)
    (apart : k ≠ Items.key index) : (exchange.on store).get? k = store.get? k := by
  obtain ⟨item, hand, effect⟩ := conducts.effect faithful
  obtain ⟨own, _, _⟩ := serving.hand item hand
  generalize exchange.on store = after at effect ⊢
  cases effect with
  | note =>
    refine (Store.get?_put ..).trans (if_neg fun same => ?_)
    rw [same, Items.not_keyStart_isPrefixOf_nonce] at begins
    cases begins
  | write => exact (Store.get?_put ..).trans (if_neg (own ▸ apart))
  | _ => rfl

/-- A record of an item stays one. -/
theorem proper (serving : Serving store index stage) (conducts : Conducts skip stage exchange stage')
    (faithful : exchange.Faithful store) {index' : Int64} (proper : Items.Proper store index') :
    Items.Proper (exchange.on store) index' := by
  by_cases same : index' = index
  · subst same
    obtain ⟨item, hand, effect⟩ := conducts.effect faithful
    obtain ⟨own, _, _⟩ := serving.hand item hand
    generalize exchange.on store = after at effect ⊢
    cases effect with
    | note => exact proper.congr ((Store.get?_put ..).trans (if_neg (Items.key_ne_nonce _ _)))
    | @write written =>
      obtain ⟨index', fits'⟩ := serving.writing written rfl
      refine ⟨written, ⟨fits', ?_⟩, index'⟩
      rw [own.trans index'.symm]
      exact (Store.get?_put ..).trans (if_pos rfl)
    | _ => exact proper
  · exact proper.congr (serving.others conducts faithful (Items.keyStart_isPrefixOf_key _)
      fun eq => same (Items.key_inj eq))

/-- The work is given up only where the item is not in the store. -/
theorem lost (serving : Serving store index stage) (conducts : Conducts skip stage exchange .idle)
    (faithful : exchange.Faithful store) : (exchange.on store).contains (Items.key index) = false := by
  obtain ⟨item, hand, effect⟩ := conducts.effect faithful
  obtain ⟨own, _, _⟩ := serving.hand item hand
  generalize exchange.on store = after at effect ⊢
  cases effect with
  | stay hand' | note hand' => cases hand'
  | lose absent => exact own ▸ absent

/-- When the work is over the item is at rest, unless it was given up. -/
theorem rests (serving : Serving store index stage) (ceased : stage.Over) (kept : stage ≠ .idle)
    (has : Items.Has store item) (same : item.index = index) : item.status.isTerminal = true := by
  obtain idle | ⟨final, promise, held, terminal⟩ := ceased
  · exact absurd idle kept
  · obtain ⟨own, _, stored⟩ := serving.hand final (by rw [held]; rfl)
    rcases stored with has' | live
    · rw [Items.has_inj has has' (same.trans own.symm)]
      exact terminal
    · cases live.symm.trans terminal

end Serving

/-- An item as its add has stored it, which the worker has not taken up. -/
def Unserved (log : List Hall.Line) (received : List Int64) (item : Item) : Prop :=
  item ∈ filed log ∧ item.index ∉ received

/-- Each item in the store that is not at rest is unserved, or somebody's charge. -/
def Kept (store : Store) (log : List Hall.Line) (received : List Int64) (charge : Item → Prop) : Prop :=
  ∀ item, Items.Has store item → item.status.isTerminal = false →
    Unserved log received item ∨ charge item

/-- The item is still to be searched for by a scan. -/
def Resume.Awaits (resume : Resume) (item : Item) : Prop :=
  item.status ∈ resume.buckets ∧ (resume.buckets.head? = some item.status → item.index ∉ resume.tried)

section

variable {line : Hall.Line} {log : List Hall.Line} {received : List Int64} {charge charge' : Item → Prop}
  {store : Store} {item : Item}

theorem Hall.Line.fits_of_filed (regular : line.Regular) (files : line.filed? = some item) :
    item.Fits := by
  obtain ⟨puts, _, free⟩ := regular.filed item files
  unfold filed? at files
  rw [puts] at files
  simp only [Items.keyStart_isPrefixOf_key, free, Bool.not_false, Bool.and_true, if_true] at files
  cases decoded : Item.layout.decode (Items.encode item) with
  | error fault =>
    rw [decoded] at files
    cases files
  | ok other =>
    rw [decoded] at files
    cases files
    exact Item.fits_of_decode decoded

/-- A request that stores a new item, or leaves the store alone. -/
structure Hall.Line.Spares (line : Hall.Line) : Prop where
  same : line.filed? = none → line.after = line.before.store
  stores : ∀ item, line.filed? = some item →
    item.Fits ∧ line.after = line.before.store.withItem item ∧
      line.before.store.contains (Items.key item.index) = false

namespace Hall.Line.Spares

theorem has (spares : line.Spares) (has : Items.Has line.before.store item) :
    Items.Has line.after item := by
  cases files : line.filed? with
  | none =>
    rw [spares.same files]
    exact has
  | some other =>
    obtain ⟨_, stores, free⟩ := spares.stores other files
    rw [stores]
    refine has.put fun same => ?_
    rw [← same, has.contains] at free
    cases free

theorem has_cases (spares : line.Spares) (has : Items.Has line.after item) :
    Items.Has line.before.store item ∨ line.filed? = some item := by
  cases files : line.filed? with
  | none =>
    rw [spares.same files] at has
    exact .inl has
  | some other =>
    obtain ⟨fits, stores, free⟩ := spares.stores other files
    rw [stores] at has
    by_cases same : item.index = other.index
    · exact .inr (congrArg some (Items.has_inj has (Items.has_withItem fits) same).symm)
    · exact .inl (has.congr ((Store.get?_put ..).trans (if_neg fun eq => same (Items.key_inj eq))).symm)

theorem proper (spares : line.Spares) {index : Int64} (proper : Items.Proper line.before.store index) :
    Items.Proper line.after index := by
  cases files : line.filed? with
  | none =>
    rw [spares.same files]
    exact proper
  | some other =>
    obtain ⟨_, stores, free⟩ := spares.stores other files
    rw [stores]
    refine proper.congr ((Store.get?_put ..).trans (if_neg fun same => ?_))
    rw [← same, proper.contains] at free
    cases free

theorem proper_filed (spares : line.Spares) (files : line.filed? = some item) :
    Items.Proper line.after item.index := by
  obtain ⟨fits, stores, _⟩ := spares.stores item files
  refine ⟨item, ⟨fits, ?_⟩, rfl⟩
  rw [stores]
  exact (Store.get?_put ..).trans (if_pos rfl)

/-- A request of an add leaves every item in the charge it is in. -/
theorem kept (spares : line.Spares) (kept : Kept line.before.store log received charge)
    (fresh : ∀ item, line.filed? = some item → item.index ∉ received) :
    Kept line.after (log ++ [line]) received charge := by
  intro item has live
  rcases spares.has_cases has with before | files
  · refine (kept item before live).imp_left fun unserved => ⟨?_, unserved.2⟩
    rw [filed_append]
    exact List.mem_append_left _ unserved.1
  · refine .inl ⟨?_, fresh item files⟩
    rw [filed_append, files]
    exact List.mem_append_right _ List.mem_cons_self

end Hall.Line.Spares

theorem Hall.Line.spares_of_still (unchanged : line.changes = false) : line.Spares where
  same _ := (Line.still unchanged).1
  stores item files := by cases (Line.still unchanged).2.symm.trans files

theorem Kept.mono (kept : Kept store log received charge) (more : ∀ item, charge item → charge' item) :
    Kept store log received charge' :=
  fun item has live => (kept item has live).imp_right (more item)

/-- The work on one item leaves every other in the charge it is in. -/
theorem Kept.serve {skip : Bool} {index : Int64} {stage stage' : Stage} {exchange : Exchange}
    {caller : Hall.Caller} {world : World} (kept : Kept world.store log received charge)
    (serving : Serving world.store index stage) (conducts : Conducts skip stage exchange stage')
    (faithful : exchange.Faithful world.store)
    (unfiled : Hall.Line.filed? ⟨caller, world, exchange.served⟩ = none)
    (own : ∀ item, Items.Has (exchange.on world.store) item → item.index = index → charge' item)
    (more : ∀ item, item.index ≠ index → charge item → charge' item) :
    Kept (exchange.on world.store) (log ++ [⟨caller, world, exchange.served⟩]) received charge' := by
  intro item has live
  by_cases same : item.index = index
  · exact .inr (own item has same)
  · have before := has.congr (serving.others conducts faithful (Items.keyStart_isPrefixOf_key _)
      fun eq => same (Items.key_inj eq)).symm
    refine (kept item before live).imp (fun unserved => ⟨?_, unserved.2⟩) (more item same)
    rw [filed_append, unfiled, Option.toList_none, List.append_nil]
    exact unserved.1

namespace Resume

variable {bucket : Status} {later : List Status} {tried : List Int64} {entries : List Store.Entry}

theorem awaits_start (live : item.status.isTerminal = false) : start.Awaits item :=
  ⟨Status.mem_resumeBuckets.2 live, fun _ absent => by cases absent⟩

/-- What a search without a result leaves is in a later bucket. -/
theorem kept_none (kept : Kept store log received (Awaits ⟨bucket :: later, tried⟩))
    (none : pick tried (Items.select bucket (store.scan Items.keyStart)) = none) :
    Kept store log received (Awaits ⟨later, []⟩) := by
  intro item has live
  refine (kept item has live).imp_right fun ⟨there, untried⟩ => ⟨?_, fun _ absent => by cases absent⟩
  refine (List.mem_cons.1 there).resolve_left fun same => ?_
  have found : item ∈ Items.select bucket (store.scan Items.keyStart) := by
    obtain ⟨record, present, decoded⟩ := has
    exact Items.mem_select.2 ⟨⟨_, record, Store.mem_scan.2
      ⟨present, Items.keyStart_isPrefixOf_key _⟩, decoded⟩, same⟩
  have passed := List.find?_eq_none.1 none item found
  have tried' : item.index ∈ tried := by simpa using passed
  exact untried (by rw [same]; rfl) tried'

/-- What a search has found is taken up, and everything else waits for the next one. -/
theorem kept_some (found : Item) (kept : Kept store log received (Awaits ⟨bucket :: later, tried⟩)) :
    Kept store log received fun item => item.index = found.index ∨
      Awaits ⟨bucket :: later, found.index :: tried⟩ item := by
  refine kept.mono fun item ⟨there, untried⟩ => ?_
  by_cases same : item.index = found.index
  · exact .inl same
  · refine .inr ⟨there, fun head => ?_⟩
    rw [List.mem_cons, not_or]
    exact ⟨same, untried head⟩

/-- An item that a search finds is not at rest, and can be written. -/
theorem fits_of_pick {found : Item} (live : bucket.isTerminal = false)
    (picked : pick tried (Items.select bucket entries) = some found) :
    found.Fits ∧ found.status.isTerminal = false := by
  obtain ⟨⟨_, record, _, decoded⟩, rfl⟩ := Items.mem_select.1 (List.mem_of_find?_eq_some picked)
  exact ⟨Item.fits_of_decode decoded, live⟩

end Resume

end

end Registrar
