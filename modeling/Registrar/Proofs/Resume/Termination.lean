import Mathlib.Data.Finset.Card
import Registrar.Proofs.Store.Exchanges

/-!
How a resume scan ends. The store has any records, some of which may be none of an item or lie under
another key than their own, and may fail at any request; the gateway may answer anything:

* `touched_process`: the work on an item writes no item but that one, and it only under its own key;
* `Touched.indices`: so no index comes to be stored in a scan that was not stored before;
* `Resume.Rounds.exist`: the indices of a bucket that are still to be tried get fewer, and the scan ends;
* `Resume.ends_trying_all`: by then it has worked on no index twice in one bucket, and has failed only if the
store failed one of its searches.
-/

namespace Registrar

open Item (Status)

namespace Items

/-- The indices of the items that can be decoded, wherever they lie. -/
def indices (store : Store) : Finset Int64 :=
  (((store.scan keyStart).filterMap fun entry => (Item.layout.decode entry.2).toOption).map
    (·.index)).toFinset

theorem mem_indices {store : Store} {index : Int64} :
    index ∈ indices store ↔ ∃ key record item, store.get? key = some record ∧
      keyStart.isPrefixOf key = true ∧ Item.layout.decode record = .ok item ∧ item.index = index := by
  have read : ∀ {record item}, (Item.layout.decode record).toOption = some item ↔
      Item.layout.decode record = .ok item := by
    intro record item
    cases Item.layout.decode record <;> simp [Except.toOption]
  simp only [indices, List.mem_toFinset, List.mem_map, List.mem_filterMap, read]
  constructor
  · rintro ⟨item, ⟨⟨key, record⟩, found, decoded⟩, own⟩
    obtain ⟨there, begins⟩ := Store.mem_scan.1 found
    exact ⟨key, record, item, there, begins, decoded, own⟩
  · rintro ⟨key, record, item, there, begins, decoded, own⟩
    exact ⟨item, ⟨(key, record), Store.mem_scan.2 ⟨there, begins⟩, decoded⟩, own⟩

/-- A search finds items whose indices are stored. -/
theorem index_mem_indices {store : Store} {status : Status} {item : Item}
    (found : item ∈ bucket store status) : item.index ∈ indices store := by
  obtain ⟨⟨key, record, there, decoded⟩, -⟩ := mem_select.1 found
  obtain ⟨there, begins⟩ := Store.mem_scan.1 there
  exact mem_indices.2 ⟨key, record, item, there, begins, decoded, rfl⟩

end Items

/-- The store before and after work on the item of an index: at most that item was written, under its own
key, and nonces. -/
structure Touched (store : Store) (index : Int64) (after : Store) : Prop where
  own : after.get? (Items.key index) = store.get? (Items.key index) ∨
    ∃ item : Item, item.index = index ∧ item.Fits ∧
      after.get? (Items.key index) = some (Items.encode item)
  others : ∀ k, k ≠ Items.key index → (∀ account, k ≠ Nonce.key account) →
    after.get? k = store.get? k

/-- The store so far, while the item of an index is worked on, and the items in hand. -/
structure Touching (store : Store) (index : Int64) (now : Store) (stage : Stage) : Prop where
  touched : Touched store index now
  held : ∀ item, stage.item = some item → item.index = index ∧ item.Fits
  writing : ∀ written, stage.written = some written → written.index = index ∧ written.Fits

section

variable {skip : Bool} {store now after : Store} {index : Int64} {stage stage' : Stage} {item : Item}

namespace Touched

theorem nothing (store : Store) (index : Int64) : Touched store index store :=
  ⟨.inl rfl, fun _ _ _ => rfl⟩

theorem note (touched : Touched store index now) (record : Nonce.Record) :
    Touched store index (now.withNonce record) where
  own := by
    unfold Store.withNonce
    rw [Store.get?_put, if_neg (Items.key_ne_nonce _ _)]
    exact touched.own
  others k apart nonce :=
    (Store.get?_put ..).trans ((if_neg (nonce _)).trans (touched.others k apart nonce))

theorem write (touched : Touched store index now) (own : item.index = index) (fits : item.Fits) :
    Touched store index (now.put (Items.key index) (Items.encode item)) where
  own := .inr ⟨item, own, fits, (Store.get?_put ..).trans (if_pos rfl)⟩
  others k apart nonce :=
    (Store.get?_put ..).trans ((if_neg apart).trans (touched.others k apart nonce))

/-- What can be decoded after the work is what could be decoded before, or the item itself. -/
theorem decoded (touched : Touched store index after) {key record : Bytes}
    (there : after.get? key = some record) (begins : Items.keyStart.isPrefixOf key = true)
    (read : Item.layout.decode record = .ok item) :
    store.get? key = some record ∨ (key = Items.key index ∧ item.index = index) := by
  have nonce : ∀ account, key ≠ Nonce.key account := by
    rintro account rfl
    rw [Items.not_keyStart_isPrefixOf_nonce] at begins
    cases begins
  by_cases same : key = Items.key index
  · subst same
    obtain kept | ⟨written, own, fits, put⟩ := touched.own
    · exact .inl (kept ▸ there)
    · cases put.symm.trans there
      cases (Items.decode_encode fits).symm.trans read
      exact .inr ⟨rfl, own⟩
  · exact .inl (touched.others key same nonce ▸ there)

/-- No index comes to be stored by the work on an item of the store. -/
theorem indices (touched : Touched store index after) (stored : index ∈ Items.indices store) :
    Items.indices after ⊆ Items.indices store := by
  intro other found
  obtain ⟨key, record, item, there, begins, read, rfl⟩ := Items.mem_indices.1 found
  obtain kept | ⟨-, own⟩ := touched.decoded there begins read
  · exact Items.mem_indices.2 ⟨key, record, item, kept, begins, read, rfl⟩
  · rw [own]
    exact stored

theorem keyed (touched : Touched store index after) (keyed : Items.Keyed store) : Items.Keyed after := by
  intro key record item there begins read
  obtain kept | ⟨same, own⟩ := touched.decoded there begins read
  · exact keyed key record item kept begins read
  · rw [same, own]

/-- An item of another index is as it was. -/
theorem has (touched : Touched store index after) (has : Items.Has store item)
    (apart : item.index ≠ index) : Items.Has after item := by
  obtain ⟨record, there, decoded⟩ := has
  refine ⟨record, ?_, decoded⟩
  rw [touched.others _ (fun same => apart (Items.key_inj same)) fun _ => Items.key_ne_nonce _ _, there]

end Touched

namespace Touching

/-- A stage that holds no other item than the one before, and is not about to write. -/
theorem hold (touching : Touching store index now stage) (after : Touched store index now')
    (same : ∀ item, stage'.item = some item → stage.item = some item) (idle : stage'.written = none) :
    Touching store index now' stage' where
  touched := after
  held item there := touching.held item (same item there)
  writing written there := by cases idle.symm.trans there

theorem idle (touched : Touched store index now) : Touching store index now .idle where
  touched := touched
  held _ there := Option.some_ne_none _ there.symm |>.elim
  writing _ there := Option.some_ne_none _ there.symm |>.elim

theorem conducts {exchange : Exchange} (touching : Touching store index now stage)
    (conducts : Conducts skip stage exchange stage') :
    Touching store index (exchange.on now) stage' := by
  cases conducts with
  | opens | promise => exact touching.hold touching.touched (fun _ there => there) rfl
  | @commit _ _ _ _ _ answer | @register _ _ _ _ _ answer | @renew _ _ _ _ answer
  | @find _ _ _ _ _ answer =>
    rcases answer with error | tx <;> exact touching.hold touching.touched (fun _ there => there) rfl
  | @await _ _ _ answer =>
    rcases answer with error | _ | _ <;>
      exact touching.hold touching.touched (fun _ there => there) rfl
  | @note _ tx answer =>
    rcases answer with error | ⟨⟩
    · exact .idle touching.touched
    · exact touching.hold (touching.touched.note ⟨tx.sender, _⟩) (fun _ there => there) rfl
  | @date _ item written _ due =>
    obtain ⟨own, fits⟩ := touching.held item (Stage.item_of_due due)
    refine ⟨touching.touched, fun other there => ?_, fun other there => ?_⟩
    · cases there
      exact ⟨own, fits⟩
    · cases there
      exact ⟨due.index.trans own, (Item.fits_iff_of_origin due.origin).2 fits⟩
  | @check _ _ answer =>
    rcases answer with error | _ | _
    · exact .idle touching.touched
    · exact .idle touching.touched
    · exact touching
  | @write item written answer =>
    obtain ⟨own, -⟩ := touching.held item rfl
    obtain ⟨own', fits⟩ := touching.writing written rfl
    rcases answer with error | ⟨⟩
    · exact .idle touching.touched
    · refine ⟨?_, fun other there => ?_, fun _ there => by cases there⟩
      · rw [own]
        exact touching.touched.write own' fits
      · cases there
        exact ⟨own', fits⟩

end Touching

/-- The work on an item writes no item but that one, whatever is answered. -/
theorem touched_process (skip : Bool) (fate : Fate) (state : Store × Nat) (fits : item.Fits) :
    Touched state.1 item.index ((Processor.process skip item).run.runWith fate.answer state).2.1 := by
  have start : Touching state.1 item.index state.1 (.held item none) :=
    ⟨.nothing _ _, fun _ there => by cases there; exact ⟨rfl, fits⟩, fun _ there => by cases there⟩
  have heeds : (Processor.process skip item).run.Heeds .wild (Conduct skip) Processor.Concludes
      (.held item none) := Processor.heeds_conclude item
  obtain ⟨stage, -, touching⟩ := heeds.run
    (fun n now _ request _ (touching : Touching state.1 item.index now _) conducts =>
      touching.conducts conducts) start
  exact touching.touched

end

namespace Resume

/-- The status that is searched at a point. -/
def Point.bucket (point : Point) : Option Status := point.resume.buckets.head?

/-- The failure of the store that the search meets there. -/
def Point.failure (fate : Fate) (point : Point) : Option StoreError :=
  (fate.heard point.resume.seek point.state).findSome? Exchange.failure

/-- The items that were worked on after the searches for a status. -/
def workedIn (status : Status) (points : List Point) : List Item :=
  (points.filter fun point => point.bucket = some status).filterMap (·.worked)

/-- What one round comes to: the store fails the search, or nothing is found that was not tried before, or
one item is worked on. -/
inductive Turn (fate : Fate) (bucket : Status) (later : List Status) (tried : List Int64)
    (state : Store × Nat) : Option Item → Next Resume (Except QueueError Unit) → Store × Nat → Prop where
  | failed {error} : (fate state.2).failure = some error →
      Turn fate bucket later tried state none (.finished (.error (.store error))) (state.1, state.2 + 1)
  | nothing : (fate state.2).failure = none → pick tried (Items.bucket state.1 bucket) = none →
      Turn fate bucket later tried state none (.again ⟨later, []⟩) (state.1, state.2 + 1)
  | found {item mid} : (fate state.2).failure = none →
      pick tried (Items.bucket state.1 bucket) = some item → Touched state.1 item.index mid.1 →
      Turn fate bucket later tried state (some item) (.again ⟨bucket :: later, item.index :: tried⟩) mid

variable {skip : Bool} {fate : Fate} {state mid last : Store × Nat} {bucket : Status}
  {later : List Status} {tried : List Int64} {points : List Point} {value : Except QueueError Unit}
  {resume : Resume} {worked : Option Item} {next : Next Resume (Except QueueError Unit)}

/-- A search fails if the store fails its only request. -/
theorem failure_eq (fate : Fate) (bucket : Status) (later : List Status) (tried : List Int64)
    (state : Store × Nat) (worked : Option Item) :
    Point.failure fate ⟨⟨bucket :: later, tried⟩, state, worked⟩ = (fate state.2).failure := by
  unfold Point.failure
  rw [seek_eq]
  simp only [Fate.heard, Fate.answer, Fortune.serve, List.findSome?_cons]
  cases (fate state.2).failure with
  | some error => rfl
  | none =>
    simp only [Exchange.failure]
    cases pick tried (Items.select bucket (state.1.serve (.scan Items.keyStart)).1) <;> rfl

/-- A search that the store fails ends the scan. -/
theorem round_failed (skip : Bool) (bucket : Status) (later : List Status) (tried : List Int64)
    {error : StoreError} (failed : (fate state.2).failure = some error) :
    Round skip fate ⟨bucket :: later, tried⟩ state none (.finished (.error (.store error)))
      (state.1, state.2 + 1) := by
  have answered : fate.answer state (.store (.scan Items.keyStart)) =
      (.error error, state.1, state.2 + 1) := by
    unfold Fate.answer Fortune.serve
    rw [failed]
  have search : fate.Runs (seek ⟨bucket :: later, tried⟩) state
      [⟨.store (.scan Items.keyStart), .error error⟩] (none, none) (state.1, state.2 + 1) := by
    rw [seek_eq]
    exact .ask answered (.done _)
  refine .idle search ?_
  rw [round_eq]
  exact .ask answered (.done _)

/-- Every round takes one of the turns. -/
theorem exists_turn (skip : Bool) (fate : Fate) (bucket : Status) (later : List Status)
    (tried : List Int64) (state : Store × Nat) :
    ∃ worked next last, Round skip fate ⟨bucket :: later, tried⟩ state worked next last ∧
      Turn fate bucket later tried state worked next last := by
  cases failure : (fate state.2).failure with
  | some error => exact ⟨_, _, _, round_failed skip bucket later tried failure, .failed failure⟩
  | none =>
    cases found : pick tried (Items.bucket state.1 bucket) with
    | none => exact ⟨_, _, _, round_none skip later failure found, .nothing failure found⟩
    | some item =>
      obtain ⟨key, record, -, -, decoded⟩ := stored_of_pick found
      exact ⟨_, _, _, round_some skip later failure found, .found failure found
        (touched_process skip fate (state.1, state.2 + 1) (Item.fits_of_decode decoded))⟩

theorem Round.turn (round : Round skip fate ⟨bucket :: later, tried⟩ state worked next last) :
    Turn fate bucket later tried state worked next last := by
  obtain ⟨_, _, _, round', turn⟩ := exists_turn skip fate bucket later tried state
  obtain ⟨rfl, rfl, rfl⟩ := round.unique round'
  exact turn

/-- The rounds of a scan by what each of them comes to. -/
inductive Course (fate : Fate) :
    Resume → Store × Nat → List Point → Except QueueError Unit → Prop where
  | finish {tried : List Int64} {state : Store × Nat} :
      Course fate ⟨[], tried⟩ state [⟨⟨[], tried⟩, state, none⟩] (.ok ())
  | failed {bucket : Status} {later : List Status} {tried : List Int64} {state : Store × Nat}
      {error : StoreError} :
      (fate state.2).failure = some error →
      Course fate ⟨bucket :: later, tried⟩ state [⟨⟨bucket :: later, tried⟩, state, none⟩]
        (.error (.store error))
  | nothing {bucket : Status} {later : List Status} {tried : List Int64} {state : Store × Nat}
      {points : List Point} {value : Except QueueError Unit} :
      (fate state.2).failure = none → pick tried (Items.bucket state.1 bucket) = none →
      Course fate ⟨later, []⟩ (state.1, state.2 + 1) points value →
      Course fate ⟨bucket :: later, tried⟩ state (⟨⟨bucket :: later, tried⟩, state, none⟩ :: points) value
  | found {bucket : Status} {later : List Status} {tried : List Int64} {state : Store × Nat}
      {item : Item} {mid : Store × Nat} {points : List Point} {value : Except QueueError Unit} :
      (fate state.2).failure = none →
      pick tried (Items.bucket state.1 bucket) = some item → Touched state.1 item.index mid.1 →
      Course fate ⟨bucket :: later, item.index :: tried⟩ mid points value →
      Course fate ⟨bucket :: later, tried⟩ state
        (⟨⟨bucket :: later, tried⟩, state, some item⟩ :: points) value

/-- At each point a round begins, which works on the item that is told there. -/
theorem Rounds.round (rounds : Rounds skip fate resume state points value last) :
    ∀ point ∈ points, ∃ next mid, Round skip fate point.resume point.state point.worked next mid := by
  induction rounds with
  | finish round => exact List.forall_mem_singleton.2 ⟨_, _, round⟩
  | again round _ ih => exact List.forall_mem_cons.2 ⟨⟨_, _, round⟩, ih⟩

theorem Rounds.course (rounds : Rounds skip fate resume state points value last) :
    Course fate resume state points value := by
  induction rounds with
  | @finish resume state worked value last round =>
    obtain ⟨_ | ⟨bucket, later⟩, tried⟩ := resume
    · obtain ⟨rfl, same, -⟩ := round.unique (.idle (.done _) (.done _))
      cases same
      exact .finish
    · cases round.turn with
      | failed failure => exact .failed failure
  | @again resume state worked next mid points value last round _ ih =>
    obtain ⟨_ | ⟨bucket, later⟩, tried⟩ := resume
    · cases (round.unique (.idle (.done _) (.done _))).2.1
    · cases round.turn with
      | nothing failure none => exact .nothing failure none ih
      | found failure found touched => exact .found failure found touched ih

/-- The indices that can be decoded and were not tried. -/
def untried (store : Store) (tried : List Int64) : Finset Int64 := Items.indices store \ tried.toFinset

theorem mem_of_pick {items : List Item} {item : Item} (found : pick tried items = some item) :
    item ∈ items ∧ item.index ∉ tried := by
  refine ⟨List.mem_of_find?_eq_some found, ?_⟩
  simpa using List.find?_some found

/-- When an item is worked on, one index less is left to be tried. -/
theorem card_untried {store : Store} {item : Item}
    (found : pick tried (Items.bucket state.1 bucket) = some item)
    (touched : Touched state.1 item.index store) :
    Items.indices store ⊆ Items.indices state.1 ∧
      (untried store (item.index :: tried)).card < (untried state.1 tried).card := by
  obtain ⟨there, fresh⟩ := mem_of_pick found
  have stored := Items.index_mem_indices there
  have fewer := touched.indices stored
  refine ⟨fewer, Finset.card_lt_card (Finset.ssubset_iff_of_subset ?_ |>.2 ⟨item.index, ?_, ?_⟩)⟩
  · intro index left
    simp only [untried, Finset.mem_sdiff, List.mem_toFinset, List.mem_cons, not_or] at left ⊢
    exact ⟨fewer left.1, left.2.2⟩
  · simp [untried, stored, fresh]
  · simp [untried]

/-- Every scan ends. -/
theorem Rounds.exist (skip : Bool) (fate : Fate) (resume : Resume) (state : Store × Nat) :
    ∃ points value last, Rounds skip fate resume state points value last := by
  obtain ⟨buckets, tried⟩ := resume
  induction buckets generalizing tried state with
  | nil => exact ⟨_, _, _, .finish (.idle (.done _) (.done _))⟩
  | cons bucket later next =>
    -- In one bucket the indices that are left to be tried get fewer.
    induction left : (untried state.1 tried).card using Nat.strong_induction_on generalizing tried state with
    | _ left ih =>
      obtain ⟨_, _, _, round, turn⟩ := exists_turn skip fate bucket later tried state
      cases turn with
      | failed => exact ⟨_, _, _, .finish round⟩
      | nothing =>
        obtain ⟨points, value, last, rounds⟩ := next (state.1, state.2 + 1) []
        exact ⟨_, _, _, .again round rounds⟩
      | found _ found touched =>
        have less := (card_untried found touched).2
        rw [left] at less
        obtain ⟨points, value, last, rounds⟩ := ih _ less _ _ rfl
        exact ⟨_, _, _, .again round rounds⟩

/-- A point at which nothing is worked on. -/
theorem workedIn_idle (status : Status) (resume : Resume) (state : Store × Nat) (points : List Point) :
    workedIn status (⟨resume, state, none⟩ :: points) = workedIn status points := by
  unfold workedIn
  rw [List.filter_cons]
  split <;> rfl

theorem workedIn_cons (status bucket : Status) (later : List Status) (tried : List Int64)
    (state : Store × Nat) (item : Item) (points : List Point) :
    workedIn status (⟨⟨bucket :: later, tried⟩, state, some item⟩ :: points) =
      if bucket = status then item :: workedIn status points else workedIn status points := by
  unfold workedIn
  by_cases same : bucket = status <;> simp [Point.bucket, same]

/-- In each bucket the indices of the items that are worked on differ, and none was tried before. -/
theorem Course.nodup (course : Course fate resume state points value) (apart : resume.buckets.Nodup)
    (status : Status) :
    ((workedIn status points).map (·.index)).Nodup ∧
      (resume.buckets.head? = some status →
        ∀ item ∈ workedIn status points, item.index ∉ resume.tried) ∧
      (status ∉ resume.buckets → workedIn status points = []) := by
  induction course with
  | finish => exact ⟨.nil, nofun, fun _ => rfl⟩
  | failed =>
    rw [workedIn_idle]
    exact ⟨.nil, fun _ _ there => (List.not_mem_nil there).elim, fun _ => rfl⟩
  | nothing _ _ _ ih =>
    obtain ⟨first, apart⟩ := List.nodup_cons.1 apart
    obtain ⟨distinct, -, absent⟩ := ih apart
    rw [workedIn_idle]
    refine ⟨distinct, fun head item there => ?_, fun none => absent fun there => none (.tail _ there)⟩
    cases head
    rw [absent first] at there
    cases there
  | @found bucket later tried state item mid points value _ found _ _ ih =>
    obtain ⟨distinct, fresh, absent⟩ := ih apart
    rw [workedIn_cons]
    by_cases same : bucket = status
    · subst same
      have fresh := fresh rfl
      rw [if_pos rfl]
      refine ⟨?_, fun _ other there => ?_, fun none => absurd List.mem_cons_self none⟩
      · refine List.nodup_cons.2 ⟨fun again => ?_, distinct⟩
        obtain ⟨other, there, eq⟩ := List.mem_map.1 again
        exact fresh other there (eq ▸ List.mem_cons_self)
      · obtain rfl | there := List.mem_cons.1 there
        · exact (mem_of_pick found).2
        · exact fun before => fresh other there (.tail _ before)
    · rw [if_neg same]
      exact ⟨distinct, fun head => absurd (Option.some.inj head) same, absent⟩

/-- How many items may still be worked on. -/
def budget (store : Store) : Resume → Nat
  | ⟨[], _⟩ => 0
  | ⟨_ :: later, tried⟩ => (untried store tried).card + later.length * (Items.indices store).card

theorem budget_le (store : Store) (later : List Status) :
    budget store ⟨later, []⟩ ≤ later.length * (Items.indices store).card := by
  cases later with
  | nil => exact Nat.zero_le _
  | cons bucket later => simp [budget, untried, Nat.succ_mul, Nat.add_comm]

theorem Course.length_le (course : Course fate resume state points value) :
    (points.filterMap (·.worked)).length ≤ budget state.1 resume := by
  induction course with
  | finish | failed => exact Nat.zero_le _
  | @nothing bucket later tried state points value _ _ _ ih =>
    have next : _ ≤ later.length * (Items.indices state.1).card := ih.trans (budget_le state.1 later)
    rw [List.filterMap_cons_none rfl, budget]
    omega
  | @found bucket later tried state item mid points value _ found touched _ ih =>
    obtain ⟨fewer, less⟩ := card_untried found touched
    have rest := Nat.mul_le_mul_left later.length (Finset.card_le_card fewer)
    simp only [List.filterMap_cons, List.length_cons, budget] at ih ⊢
    omega

/-- A scan fails exactly if the store fails a search, and with that failure. -/
theorem Course.error_iff (course : Course fate resume state points value) (error : QueueError) :
    value = .error error ↔
      ∃ point ∈ points, ∃ fault, point.failure fate = some fault ∧ error = .store fault := by
  induction course with
  | finish => simp [Point.failure, seek, Fate.heard]
  | failed failure => simp [failure_eq, failure, eq_comm]
  | nothing failure _ _ ih | found failure _ _ _ ih =>
    rw [ih]
    simp [failure_eq, failure]

/-- Over a store whose items lie under their own keys, each item of a bucket that was not tried yet is
worked on, unless a search fails. -/
theorem Course.attempts (course : Course fate resume state points value) (ends : value = .ok ())
    (keyed : Items.Keyed state.1) :
    (∀ status, resume.buckets.head? = some status → ∀ item ∈ Items.bucket state.1 status,
      item.index ∉ resume.tried → item ∈ workedIn status points) ∧
    ∀ point ∈ points, point.resume.tried = [] → ∀ status, point.bucket = some status →
      ∀ item ∈ Items.bucket point.state.1 status, item ∈ workedIn status points := by
  induction course with
  | finish =>
    refine ⟨nofun, fun point there _ status head => ?_⟩
    cases List.mem_singleton.1 there
    cases head
  | failed => cases ends
  | @nothing bucket later tried state points value _ none _ ih =>
    obtain ⟨-, next⟩ := ih ends keyed
    have first : ∀ item ∈ Items.bucket state.1 bucket, item.index ∈ tried := by
      intro item there
      simpa using List.find?_eq_none.1 none item there
    refine ⟨fun status head item there fresh => ?_, fun point there new status head item found => ?_⟩
    · cases head
      exact absurd (first item there) fresh
    · rw [workedIn_idle]
      obtain rfl | there := List.mem_cons.1 there
      · cases head
        have before : item.index ∈ ([] : List Int64) := new ▸ first item found
        cases before
      · exact next point there new status head item found
  | @found bucket later tried state item mid points value _ found touched _ ih =>
    obtain ⟨rest, next⟩ := ih ends (touched.keyed keyed)
    obtain ⟨has, status⟩ := keyed.mem_bucket.1 (mem_of_pick found).1
    have first : ∀ other ∈ Items.bucket state.1 bucket, other.index ∉ tried →
        other ∈ workedIn bucket (⟨⟨bucket :: later, tried⟩, state, some item⟩ :: points) := by
      intro other there fresh
      rw [workedIn_cons, if_pos rfl]
      obtain ⟨has', status'⟩ := keyed.mem_bucket.1 there
      by_cases same : other.index = item.index
      · obtain rfl := Items.has_inj has' has same
        exact List.mem_cons_self
      · -- The work on one item leaves the others as they are, so they are found again.
        have again : other ∈ Items.bucket mid.1 bucket :=
          (touched.keyed keyed).mem_bucket.2 ⟨touched.has has' same, status'⟩
        exact .tail _ (rest bucket rfl other again (by simp [same, fresh]))
    refine ⟨fun status head other there fresh => ?_, fun point there new status head other found => ?_⟩
    · cases head
      exact first other there fresh
    · obtain rfl | there := List.mem_cons.1 there
      · cases head
        have new : tried = [] := new
        exact first other found (new ▸ List.not_mem_nil)
      · have later := next point there new status head other found
        rw [workedIn_cons]
        split
        · exact .tail _ later
        · exact later

/-- A scan that does not fail searches each status that is left, and begins with no index tried there. -/
theorem Course.searches (course : Course fate resume state points value) (ends : value = .ok ())
    {status : Status}
    (left : status ∈ resume.buckets.tail ∨ resume.tried = [] ∧ resume.buckets.head? = some status) :
    ∃ point ∈ points, point.resume.tried = [] ∧ point.bucket = some status := by
  induction course with
  | finish => obtain none | ⟨-, none⟩ := left <;> cases none
  | failed => cases ends
  | @nothing bucket later tried state points value _ _ _ ih =>
    obtain there | new := left
    · have next : status ∈ later.tail ∨ ([] : List Int64) = [] ∧ later.head? = some status := by
        cases later with
        | nil => cases there
        | cons first rest =>
          obtain rfl | there := List.mem_cons.1 there
          · exact .inr ⟨rfl, rfl⟩
          · exact .inl there
      obtain ⟨point, there, found⟩ := ih ends next
      exact ⟨point, .tail _ there, found⟩
    · exact ⟨_, List.mem_cons_self, new⟩
  | found _ _ _ _ ih =>
    obtain there | new := left
    · obtain ⟨point, there, found⟩ := ih ends (.inl there)
      exact ⟨point, .tail _ there, found⟩
    · exact ⟨_, List.mem_cons_self, new⟩

/-- A resume scan ends, whatever the store has, whichever requests the store fails and whatever the gateway
answers. Each of its rounds is a search and, if that finds an item, a run of `Processor.process` on this
item. In each bucket there is no such run for the same index twice, so there are at most five times as many
as there are indices that can be decoded. The scan fails exactly if the store fails one of its searches, and
with that failure. If none fails, and the items lie under their own keys, then each bucket is searched, and
all items that are found in it the first time are worked on. -/
theorem ends_trying_all (skip : Bool) (fate : Fate) (store : Store) :
    (∃ points value last, Rounds skip fate .start (store, 0) points value last) ∧
    ∀ points value last, Rounds skip fate .start (store, 0) points value last →
      (∀ point ∈ points, ∃ next mid,
        Round skip fate point.resume point.state point.worked next mid) ∧
      (∀ status, ((workedIn status points).map (·.index)).Nodup) ∧
      (points.filterMap (·.worked)).length ≤ 5 * (Items.indices store).card ∧
      (∀ error, value = .error error ↔
        ∃ point ∈ points, ∃ fault, point.failure fate = some fault ∧ error = .store fault) ∧
      ((∀ point ∈ points, point.failure fate = none) → Items.Keyed store →
        ∀ status ∈ Status.resumeBuckets,
          (∃ point ∈ points, point.resume.tried = [] ∧ point.bucket = some status) ∧
          ∀ point ∈ points, point.resume.tried = [] → point.bucket = some status →
            ∀ item ∈ Items.bucket point.state.1 status, item ∈ workedIn status points) := by
  refine ⟨Rounds.exist skip fate .start (store, 0), fun points value last rounds => ?_⟩
  have course := rounds.course
  have apart : Status.resumeBuckets.Nodup := by decide
  have few : budget store .start ≤ 5 * (Items.indices store).card :=
    budget_le store Status.resumeBuckets
  refine ⟨rounds.round, fun status => (course.nodup apart status).1, course.length_le.trans few,
    course.error_iff, fun whole keyed status there => ?_⟩
  have ends : value = .ok () := by
    cases value with
    | ok => rfl
    | error error =>
      obtain ⟨point, there, fault, failed, -⟩ := (course.error_iff error).1 rfl
      cases (whole point there).symm.trans failed
  have left : status ∈ Status.resumeBuckets.tail ∨
      ([] : List Int64) = [] ∧ Status.resumeBuckets.head? = some status := by
    obtain rfl | there := List.mem_cons.1 there
    · exact .inr ⟨rfl, rfl⟩
    · exact .inl there
  exact ⟨course.searches ends left, fun point there' new head item found =>
    (course.attempts ends keyed).2 point there' new status head item found⟩

end Resume

end Registrar
