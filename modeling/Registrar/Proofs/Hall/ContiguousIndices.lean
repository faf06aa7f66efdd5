import Mathlib.Data.List.Nodup
import Registrar.Proofs.Hall.Turns

/-!
Indices without gaps. Where the keys of items are those of the first indices they stay so, whoever adds
requests at the same time and however often the store fails: each item that is stored gets the index that
comes next. `Hall.indices_contiguous` says so of every run, and what each add has left by its answer.
-/

namespace Registrar

open Hall (linesOf filed times Timely Records Leads)

namespace Items

/-- The keys of items are exactly those of the first `n` indices. -/
structure Filled (store : Store) (n : Nat) : Prop where
  bound : n ≤ 2 ^ 63
  keys : ∀ k, keyStart.isPrefixOf k = true →
    (store.contains k = true ↔ ∃ i < n, k = key (Int64.ofNat i))

theorem ofNat_inj {i j : Nat} (hi : i < 2 ^ 63) (hj : j < 2 ^ 63)
    (same : Int64.ofNat i = Int64.ofNat j) : i = j := by
  have := congrArg Int64.toInt same
  rw [Int64.toInt_ofNat_of_lt hi, Int64.toInt_ofNat_of_lt hj] at this
  omega

namespace Filled

variable {store : Store} {n i : Nat}

theorem contains_iff (filled : Filled store n) (hi : i < 2 ^ 63) :
    store.contains (key (Int64.ofNat i)) = true ↔ i < n := by
  rw [filled.keys _ (keyStart_isPrefixOf_key _)]
  constructor
  · rintro ⟨j, hj, same⟩
    have bound := filled.bound
    rw [ofNat_inj hi (by omega) (key_inj same)]
    exact hj
  · exact fun lt => ⟨i, lt, rfl⟩

theorem count (filled : Filled store n) : store.count keyStart = n := by
  have distinct : ((List.range n).map fun i => key (Int64.ofNat i)).Nodup := by
    refine List.nodup_range.map_on fun i hi j hj same => ?_
    have bound := filled.bound
    rw [List.mem_range] at hi hj
    exact ofNat_inj (by omega) (by omega) (key_inj same)
  have perm := (List.perm_ext_iff_of_nodup (store.nodup_keys_scan keyStart) distinct).2 fun k => by
    rw [Store.mem_keys_scan, List.mem_map]
    constructor
    · rintro ⟨there, begins⟩
      obtain ⟨i, lt, rfl⟩ := (filled.keys k begins).1 there
      exact ⟨i, List.mem_range.2 lt, rfl⟩
    · rintro ⟨i, lt, rfl⟩
      have begins := keyStart_isPrefixOf_key (Int64.ofNat i)
      exact ⟨(filled.keys _ begins).2 ⟨i, List.mem_range.1 lt, rfl⟩, begins⟩
  rw [Store.count_eq_length, perm.length_eq, List.length_map, List.length_range]

end Filled

end Items

namespace Queue

/-- The index after some others, as long as there is one. -/
theorem indexAfter_eq {count : Nat} (room : count < 2 ^ 63) : indexAfter count = Int64.ofNat count := by
  have first : min (count : Int) Int64.maxValue.toInt = count := by
    rw [show Int64.maxValue.toInt = 2 ^ 63 - 1 by decide]
    omega
  unfold indexAfter
  rw [first, Int64.ofInt_eq_ofNat]

theorem indexAfter_last : indexAfter (2 ^ 63) = Int64.ofNat (2 ^ 63 - 1) := by decide

end Queue

namespace Items.Filled

variable {store : Store} {n m : Nat} {line : Hall.Line}

/-- The index after the last one is taken only if there is none. -/
theorem exhausted_iff (filled : Filled store n) :
    store.contains (key (Queue.indexAfter (store.count keyStart))) = true ↔ n = 2 ^ 63 := by
  have bound := filled.bound
  rw [filled.count]
  rcases Nat.lt_or_eq_of_le bound with room | full
  · rw [Queue.indexAfter_eq room, filled.contains_iff room]
    omega
  · subst full
    rw [Queue.indexAfter_last, filled.contains_iff (by omega)]
    omega

theorem keep (filled : Filled line.before.store n) (regular : line.Regular)
    (none : line.filed? = none) : Filled line.after n where
  bound := filled.bound
  keys k begins := by rw [regular.kept none k begins, filled.keys k begins]

/-- An item that is stored under a free key gets the next index. -/
theorem insert (filled : Filled line.before.store n) (regular : line.Regular) {item : Item}
    (files : line.filed? = some item) : item.index = Int64.ofNat n ∧ Filled line.after (n + 1) := by
  obtain ⟨puts, index, free⟩ := regular.filed item files
  have room : n < 2 ^ 63 := by
    refine Nat.lt_of_le_of_ne filled.bound fun full => ?_
    rw [index, filled.exhausted_iff.2 full] at free
    cases free
  rw [filled.count, Queue.indexAfter_eq room] at index
  refine ⟨index, room, fun k begins => ?_⟩
  have put : line.after.contains k =
      (decide (k = key item.index) || line.before.store.contains k) := by
    unfold Hall.Line.after
    rw [puts]
    exact Store.contains_put ..
  rw [put, index, Bool.or_eq_true, decide_eq_true_eq, filled.keys k begins]
  constructor
  · rintro (rfl | ⟨i, lt, rfl⟩)
    · exact ⟨n, Nat.lt_succ_self n, rfl⟩
    · exact ⟨i, Nat.lt_succ_of_lt lt, rfl⟩
  · rintro ⟨i, lt, rfl⟩
    rcases Nat.lt_succ_iff_lt_or_eq.1 lt with before | rfl
    · exact .inr ⟨i, before, rfl⟩
    · exact .inl rfl

end Items.Filled

theorem Items.filled_empty : Filled .empty 0 where
  bound := Nat.zero_le _
  keys _ _ := ⟨nofun, fun ⟨_, lt, _⟩ => absurd lt (Nat.not_lt_zero _)⟩

namespace Hall

variable {first store : Store} {log : List Line} {n : Nat}

/-- Whatever is done, the keys of items stay those of the first indices, and the items that are stored
get the ones that come next, one after the other. -/
theorem Leads.filled (leads : Leads first log store) (regular : ∀ line ∈ log, line.Regular)
    (filled : Items.Filled first n) :
    Items.Filled store (n + (filed log).length) ∧
      (filed log).map (·.index) = (List.range' n (filed log).length).map Int64.ofNat := by
  induction leads with
  | stay => exact ⟨filled, rfl⟩
  | @next log line leads ih =>
    obtain ⟨filled, indices⟩ := ih fun other there => regular other (List.mem_append_left _ there)
    have own := regular line (List.mem_append_right _ List.mem_cons_self)
    rw [filed_append]
    cases files : line.filed? with
    | none =>
      rw [Option.toList_none, List.append_nil]
      exact ⟨filled.keep own files, indices⟩
    | some item =>
      obtain ⟨index, filled⟩ := filled.insert own files
      rw [Option.toList_some, List.length_append, List.length_singleton]
      refine ⟨filled, ?_⟩
      rw [List.map_append, indices, List.range'_concat, List.map_append, List.map_singleton,
        List.map_singleton, index, Nat.one_mul]

/-- Nobody learns that the next index is taken before all are. -/
theorem Leads.full (leads : Leads first log store) (regular : ∀ line ∈ log, line.Regular)
    (filled : Items.Filled first n) {m : Nat} (exhausted : Exhausted log m) :
    n + (filed log).length = 2 ^ 63 := by
  obtain ⟨line, there, taken⟩ := exhausted
  replace there := (List.mem_filter.1 there).1
  have bound := (leads.filled regular filled).1.bound
  induction leads with
  | stay => cases there
  | @next log last leads ih =>
    have regular' := fun other there => regular other (List.mem_append_left _ there)
    rw [filed_append, List.length_append] at bound ⊢
    rcases List.mem_append.1 there with before | last
    · have := ih regular' before (by omega)
      omega
    · cases List.mem_singleton.1 last
      have := (leads.filled regular' filled).1.exhausted_iff.1 taken
      omega

/-- The visitors who have stored an item. -/
def filers (hall : Hall) : List Nat :=
  (List.range hall.visits.length).filter fun n => (linesOf hall.log n).any (·.filed?.isSome)

/-- A visitor has stored the item of its request under an index, where nothing was before, and has
changed nothing else. -/
def Stored (log : List Line) (n : Nat) (request : ItemRequest) (index : Int64) : Prop :=
  ∃ line item secret date, (linesOf log n).filter (·.changes) = [line] ∧
    line.before.store.contains (Items.key index) = false ∧
    line.exchange = ⟨.work (.store (.put (Items.key index) (Items.encode item))), .ok ()⟩ ∧
    item = .ofRequest index secret date request ∧ item.status = .initial

/-- What the answer of an add says of what it has stored. -/
def Tells (log : List Line) (n : Nat) (request : ItemRequest) : Except QueueError Int64 → Prop
  | .ok index | .error (.laneFull index) => Stored log n request index
  | .error .laneClosed => ∃ index, Stored log n request index
  | .error _ => ∀ line ∈ linesOf log n, line.changes = false

theorem stored_of_line {request : ItemRequest} {line : Line} {item : Item} (sound : Sound store log)
    (there : line ∈ linesOf log n) (files : line.filed? = some item)
    (only : (linesOf log n).filter (·.changes) = [line]) (own : item.For request) :
    Stored log n request item.index := by
  obtain ⟨puts, _, free⟩ := (sound.lines line (List.mem_filter.1 there).1).filed item files
  obtain ⟨secret, date, own⟩ := own
  exact ⟨line, item, secret, date, only, free, puts, own, Item.For.initial ⟨secret, date, own⟩⟩

theorem stored_of_records {request : ItemRequest} {item : Item}
    {told : Option (Int64 × Except QueueError Unit)} (sound : Sound store log)
    (records : Records log n (some item) told) (own : item.For request) :
    Stored log n request item.index := by
  obtain ⟨line, there, files⟩ := records.filer
  exact stored_of_line sound there files (records.sole there (Line.changes_of_filed files)).1 own

theorem unchanged_of_records {told : Option (Int64 × Except QueueError Unit)}
    (records : Records log n none told) : ∀ line ∈ linesOf log n, line.changes = false := by
  intro line there
  cases changes : line.changes with
  | false => rfl
  | true => cases (records.sole there changes).2.2

/-- The answer of an add that has ended tells what it has stored. -/
theorem tells_of_added {request : ItemRequest} {answer : Except QueueError Int64}
    {holder : Option Nat} (sound : Sound store log)
    (inOrder : (Visit.added request answer).InOrder store log holder n) :
    Tells log n request answer ∧
      ∀ index, answer = .error (.duplicateIndex index) → Exhausted log n := by
  obtain ⟨stage, answered, _, known, records⟩ := inOrder
  cases stage with
  | refused error =>
    cases answered
    obtain ⟨lane, exhausted⟩ := known
    refine ⟨?_, fun index same => exhausted index (Except.error.inj same)⟩
    have unchanged := unchanged_of_records records
    cases error <;> first | exact unchanged | cases lane
  | announced item answer =>
    have stored := stored_of_records sound records known.1
    cases answered
    cases answer with
    | ok => exact ⟨stored, nofun⟩
    | error error =>
      rcases known.2 error rfl with rfl | rfl
      · exact ⟨stored, nofun⟩
      · exact ⟨⟨_, stored⟩, nofun⟩
  | _ => cases answered

theorem Stored.line {request : ItemRequest} {index : Int64} (sound : Sound store log)
    (stored : Stored log n request index) :
    ∃ line ∈ log, line.caller = .visitor n ∧ ∃ item, line.filed? = some item ∧ item.index = index := by
  obtain ⟨line, item, _, _, only, free, puts, _, _⟩ := stored
  have found : line ∈ (linesOf log n).filter (·.changes) := only ▸ List.mem_cons_self
  obtain ⟨there, called⟩ := List.mem_filter.1 (List.mem_filter.1 found).1
  refine ⟨line, there, of_decide_eq_true called, ?_⟩
  have regular := sound.lines line there
  cases files : line.filed? with
  | none =>
    have kept := regular.kept files _ (Items.keyStart_isPrefixOf_key index)
    unfold Line.after at kept
    rw [free, puts] at kept
    have put : (line.before.store.put (Items.key index) (Items.encode item)).contains
        (Items.key index) = true := (Store.contains_put ..).trans (by simp)
    cases put.symm.trans kept
  | some other =>
    obtain ⟨puts', _, _⟩ := regular.filed other files
    have same := Work.Request.store.inj (Service.Request.work.inj
      (congrArg Service.Exchange.request (puts'.symm.trans puts)))
    exact ⟨other, rfl, Items.key_inj (Store.Request.put.inj same).1⟩

/-- Two visitors do not store items under the same index. -/
theorem Stored.unique {v v' : Nat} {request request' : ItemRequest} {index : Int64}
    (sound : Sound store log) (first : Stored log v request index)
    (second : Stored log v' request' index) : v = v' := by
  obtain ⟨line, there, called, item, files, same⟩ := first.line sound
  obtain ⟨line', there', called', item', files', same'⟩ := second.line sound
  cases sound.unique there there' files files' (same.trans same'.symm)
  cases called.symm.trans called'
  rfl

/-- As many visitors have stored an item as items were stored. -/
theorem Orderly.length_filers {hall : Hall} {holder : Option Nat} (orderly : hall.Orderly holder) :
    hall.filers.length = (filed hall.log).length := by
  have mapped := map_filings hall.log
  have distinct : (hall.log.filter (·.filed?.isSome)).Nodup := by
    refine List.Nodup.of_map (·.filed?) ?_
    rw [mapped]
    exact (List.Nodup.of_map _ orderly.sound.distinct).map fun _ _ => Option.some.inj
  have author : ∀ line ∈ hall.log.filter (·.filed?.isSome), ∃ n item, n < hall.visits.length ∧
      line ∈ linesOf hall.log n ∧ line.filed? = some item ∧
      (linesOf hall.log n).filter (·.changes) = [line] := by
    intro line found
    obtain ⟨there, files⟩ := List.mem_filter.1 found
    obtain ⟨n, visit, request, stage, own, _, _, _, records⟩ := orderly.author there (.inl files)
    obtain ⟨item, files⟩ := Option.isSome_iff_exists.1 files
    have called := of_decide_eq_true (List.mem_filter.1 own).2
    exact ⟨n, item, orderly.callers line there n called, own, files,
      (records.sole own (Line.changes_of_filed files)).1⟩
  have callers : ((hall.log.filter (·.filed?.isSome)).map (·.caller)).Nodup := by
    refine distinct.map_on fun a ha b hb same => ?_
    obtain ⟨n, _, _, own, _, only⟩ := author a ha
    obtain ⟨m, _, _, own', _, only'⟩ := author b hb
    have called := of_decide_eq_true (List.mem_filter.1 own).2
    have called' := of_decide_eq_true (List.mem_filter.1 own').2
    cases called.symm.trans (same.trans called')
    exact List.head_eq_of_cons_eq (only.symm.trans only')
  have perm : (hall.filers.map Caller.visitor).Perm
      ((hall.log.filter (·.filed?.isSome)).map (·.caller)) := by
    refine (List.perm_ext_iff_of_nodup ?_ callers).2 fun caller => ?_
    · exact (List.nodup_range.filter _).map fun _ _ => Caller.visitor.inj
    · rw [List.mem_map, List.mem_map]
      constructor
      · rintro ⟨n, found, rfl⟩
        obtain ⟨line, own, files⟩ := List.any_eq_true.1 (List.mem_filter.1 found).2
        obtain ⟨there, called⟩ := List.mem_filter.1 own
        exact ⟨line, List.mem_filter.2 ⟨there, files⟩, of_decide_eq_true called⟩
      · rintro ⟨line, found, rfl⟩
        obtain ⟨n, item, bound, own, files, _⟩ := author line found
        have called := of_decide_eq_true (List.mem_filter.1 own).2
        refine ⟨n, List.mem_filter.2 ⟨List.mem_range.2 bound, ?_⟩, called.symm⟩
        exact List.any_eq_true.2 ⟨line, own, files ▸ rfl⟩
  have length := perm.length_eq
  rw [List.length_map, List.length_map] at length
  have mapped := congrArg List.length mapped
  rw [List.length_map, List.length_map] at mapped
  exact length.trans mapped

/-- Where the keys of items are those of the first `n` indices when a queue is built, they are at any time
those of the first `m`, and `m - n` is how many adds have stored an item. An add that answers an index, or
that the lane is full or closed, has stored its request under an index of its own, where nothing was; one
that answers another error has changed nothing. An index would be answered as taken only if there were no
other left. While the clock does not go back, later indices have later dates. -/
theorem indices_contiguous (clock : Nat) (backend : Backend) (secrets : Nat → Secret) (drawn : Nat)
    (options : Queue.Options) (events : List Event) {n : Nat}
    (filled : Items.Filled backend.books.store.store n) :
    let hall := run (.build clock backend secrets drawn options) events
    let m := n + hall.filers.length
    Items.Filled hall.world.store m ∧
      (∀ v ∈ hall.filers, ∃ request, hall.visits[v]?.bind Visit.request? = some request) ∧
      (∀ (v : Nat) request answer, hall.visits[v]? = some (.added request answer) →
        Tells hall.log v request answer) ∧
      (∀ (v : Nat) request, hall.visits[v]?.bind Visit.request? = some request →
        ∀ line ∈ linesOf hall.log v, line.changes = true →
          ∃ index, Stored hall.log v request index) ∧
      (∀ v v' request request' index, Stored hall.log v request index →
        Stored hall.log v' request' index → v = v') ∧
      (∀ (v : Nat) request index,
        hall.visits[v]? = some (.added request (.error (.duplicateIndex index))) → m = 2 ^ 63) ∧
      (filed hall.log).map (·.index) = (List.range' n hall.filers.length).map Int64.ofNat ∧
      (Timely hall.log →
        (filed hall.log).Pairwise fun a b => a.dateCreated ≤ b.dateCreated) := by
  intro hall m
  obtain ⟨holder, orderly⟩ : ∃ holder, hall.Orderly holder := orderly_run rfl rfl events
  have sound := orderly.sound
  have leads : Leads backend.books.store.store hall.log hall.world.store :=
    leads_run (.build clock backend secrets drawn options) events
  have length := orderly.length_filers
  obtain ⟨filled', indices⟩ := leads.filled sound.lines filled
  rw [← length] at filled' indices
  refine ⟨filled', fun v there => ?_, fun v request answer found => ?_,
    fun v request asked line there changes => ?_, fun v v' request request' index first second => ?_,
    fun v request index found => ?_, indices, sound.sorted⟩
  · obtain ⟨line, own, files⟩ := List.any_eq_true.1 (List.mem_filter.1 there).2
    obtain ⟨there, called⟩ := List.mem_filter.1 own
    obtain ⟨v', request, called', asked⟩ := orderly.authors line there (.inl files)
    cases (of_decide_eq_true called).symm.trans called'
    exact ⟨request, asked⟩
  · exact (tells_of_added sound (orderly.visits v _ found)).1
  · obtain ⟨visit, found, asked⟩ := Option.bind_eq_some_iff.1 asked
    obtain ⟨stage, _, known, records⟩ := (orderly.visits v visit found).records asked
    obtain ⟨only, files, stored⟩ := records.sole there changes
    obtain ⟨item, same⟩ := Option.isSome_iff_exists.1 stored
    exact ⟨item.index, stored_of_line sound there (files.trans same) only (known.own same)⟩
  · exact first.unique sound second
  · have exhausted := (tells_of_added sound (orderly.visits v _ found)).2 index rfl
    exact (congrArg (n + ·) length).trans (leads.full sound.lines filled exhausted)

/-- The request of an add that has ended, and its answer. -/
def answered (hall : Hall) (n : Nat) : Option (ItemRequest × Except QueueError Int64) :=
  match hall.visits[n]? with
  | some (.added request answer) => some (request, answer)
  | _ => none

theorem found_of_answered {hall : Hall} {request : ItemRequest} {answer : Except QueueError Int64}
    (h : hall.answered n = some (request, answer)) : hall.visits[n]? = some (.added request answer) := by
  unfold answered at h
  split at h
  · cases h
    assumption
  · cases h

/-- Of three adds at once over an empty store, the second of which cannot write its item, the first and
the third store theirs under the first two indices. -/
theorem indices_contiguous_faulty :
    let request (name : String) : ItemRequest := .register ⟨name, "", "", ""⟩
    let chance : Chance := ⟨⟨fun _ => .error (.connection ""), none, 5⟩, .ok (.fill 1)⟩
    let broken : Chance := { chance with failure := some (.io "disk full") }
    let turns (chance : Chance) (visitors : List Nat) : List Event := visitors.map (.turn · chance)
    let events : List Event := [.add (request "a.any") (by decide), .add (request "b.any") (by decide),
        .add (request "c.any") (by decide)] ++
      turns chance [0, 1, 2, 1, 0, 1, 2, 1, 1] ++ turns broken [1] ++
      turns chance [0, 1, 0, 1, 0, 0, 0, 2, 0, 2, 0, 2, 2, 2, 2, 2, 0, 2, 2, 0, 2]
    let hall := run (.build 0 (Backend.fresh .sample ⟨7, 1⟩ 0) (fun _ => .fill 1) 0 ⟨8, 100, false, false⟩)
      events
    hall.filers = [0, 2] ∧ Items.Filled hall.world.store 2 ∧
      (filed hall.log).map (·.index) = [0, 1] ∧
      Stored hall.log 0 (request "a.any") 0 ∧ Stored hall.log 2 (request "c.any") 1 := by
  intro request chance broken turns events hall
  obtain ⟨filled, -, tells, -, -, -, indices, -⟩ :=
    indices_contiguous 0 (Backend.fresh .sample ⟨7, 1⟩ 0) (fun _ => .fill 1) 0 ⟨8, 100, false, false⟩
      events Items.filled_empty
  have filers : hall.filers = [0, 2] := by decide +kernel
  have first : hall.answered 0 = some (request "a.any", .ok 0) := by decide +kernel
  have third : hall.answered 2 = some (request "c.any", .ok 1) := by decide +kernel
  rw [show Hall.filers _ = [0, 2] from filers] at filled indices
  exact ⟨filers, filled, indices, tells 0 _ _ (found_of_answered first),
    tells 2 _ _ (found_of_answered third)⟩

end Hall

end Registrar
