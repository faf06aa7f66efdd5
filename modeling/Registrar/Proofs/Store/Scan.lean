import Mathlib.Algebra.Order.Ring.Nat
import Mathlib.Data.List.Sort
import Registrar.Store

/-!
What a store holds, seen through its look-ups. A scan finds exactly the entries whose keys begin as
wanted (`scan_eq_filter`), and a count over the entries changes with a write by what the write puts in
and takes out (`total_put`).
-/

namespace Registrar.Store

theorem bytes_le_of_isPrefix {start key : Bytes} (h : start <+: key) : start ≤ key := by
  obtain ⟨rest, rfl⟩ := h
  induction start with
  | nil => exact List.nil_le _
  | cons b start ih => exact List.cons_le_cons_iff.2 (.inr ⟨rfl, ih⟩)

/-- Between a start and a key that begins with it, every key begins with it. -/
theorem isPrefix_between {start low high : Bytes} (above : start ≤ low) (below : low < high)
    (h : start <+: high) : start <+: low := by
  induction start generalizing low high with
  | nil => exact List.nil_prefix
  | cons b start ih =>
    obtain ⟨rest, rfl⟩ := h
    cases low with
    | nil => exact absurd above (by simp)
    | cons c low =>
      rw [List.cons_append, List.cons_lt_cons_iff] at below
      rw [List.cons_le_cons_iff] at above
      obtain first | ⟨same, above⟩ := above
      · obtain back | ⟨same, _⟩ := below
        · exact absurd back (UInt8.lt_asymm first)
        · exact absurd first (same ▸ UInt8.lt_irrefl _)
      · subst same
        obtain back | ⟨_, below⟩ := below
        · exact absurd back (UInt8.lt_irrefl _)
        · exact List.cons_prefix_cons.2 ⟨rfl, ih above below ⟨rest, rfl⟩⟩

theorem takeWhile_eq_filter {start : Bytes} {entries : List Entry} (h : Sorted entries)
    (above : ∀ e ∈ entries, start ≤ e.1) :
    entries.takeWhile (start.isPrefixOf ·.1) = entries.filter (start.isPrefixOf ·.1) := by
  induction entries with
  | nil => rfl
  | cons e rest ih =>
    obtain ⟨first, later⟩ := List.pairwise_cons.1 h
    by_cases begins : start.isPrefixOf e.1 = true
    · rw [List.takeWhile_cons, if_pos begins, List.filter_cons, if_pos begins,
        ih later fun e he => above e (List.mem_cons_of_mem _ he)]
    · rw [List.takeWhile_cons, if_neg begins, List.filter_cons, if_neg begins, eq_comm,
        List.filter_eq_nil_iff]
      intro e' he' begins'
      exact begins (List.isPrefixOf_iff_prefix.2 (isPrefix_between
        (above e List.mem_cons_self) (first e' he') (List.isPrefixOf_iff_prefix.1 begins')))

theorem scan_eq_filter (store : Store) (start : Bytes) :
    store.scan start = store.entries.filter (start.isPrefixOf ·.1) := by
  have run : ∀ entries : List Entry, Sorted entries →
      (entries.dropWhile (·.1 < start)).takeWhile (start.isPrefixOf ·.1) =
        entries.filter (start.isPrefixOf ·.1) := by
    intro entries h
    induction entries with
    | nil => rfl
    | cons e rest ih =>
      obtain ⟨first, later⟩ := List.pairwise_cons.1 h
      by_cases before : e.1 < start
      · have apart : ¬ start.isPrefixOf e.1 = true := fun begins =>
          List.not_lt.2 (bytes_le_of_isPrefix (List.isPrefixOf_iff_prefix.1 begins)) before
        rw [List.dropWhile_cons_of_pos (by simpa using before), List.filter_cons, if_neg apart,
          ih later]
      · rw [List.dropWhile_cons_of_neg (by simpa using before)]
        apply takeWhile_eq_filter h
        intro e' he'
        rcases List.mem_cons.1 he' with rfl | he'
        · exact List.not_lt.1 before
        · exact List.le_trans (List.not_lt.1 before) (List.le_of_lt (first e' he'))
  exact run store.entries store.sorted

theorem lookup_eq_none_of_lt {key : Bytes} {entries : List Entry}
    (h : ∀ e ∈ entries, key < e.1) : entries.lookup key = none := by
  rw [List.lookup_eq_none_iff]
  intro e he
  have ne : key ≠ e.1 := fun same => List.lt_irrefl e.1 (same ▸ h e he)
  simp [ne]

theorem lookup_eq_some_iff {key value : Bytes} {entries : List Entry} (h : Sorted entries) :
    entries.lookup key = some value ↔ (key, value) ∈ entries := by
  induction entries with
  | nil => simp
  | cons e rest ih =>
    obtain ⟨k, v⟩ := e
    obtain ⟨first, later⟩ := List.pairwise_cons.1 h
    rw [List.lookup_cons]
    by_cases same : key = k
    · subst same
      have absent : (key, value) ∉ rest := fun inside => List.lt_irrefl key (first _ inside)
      simp [absent, eq_comm]
    · simp [same, beq_false_of_ne same, ih later]

theorem get?_eq_some_iff {store : Store} {key value : Bytes} :
    store.get? key = some value ↔ (key, value) ∈ store.entries :=
  lookup_eq_some_iff store.sorted

theorem mem_scan {store : Store} {start key value : Bytes} :
    (key, value) ∈ store.scan start ↔
      store.get? key = some value ∧ start.isPrefixOf key = true := by
  rw [scan_eq_filter, List.mem_filter, get?_eq_some_iff]

theorem sorted_scan (store : Store) (start : Bytes) : Sorted (store.scan start) := by
  rw [scan_eq_filter]
  exact store.sorted.filter _

theorem contains_iff {store : Store} {key : Bytes} :
    store.contains key = true ↔ ∃ value, store.get? key = some value :=
  Option.isSome_iff_exists

theorem contains_put (store : Store) (key value other : Bytes) :
    (store.put key value).contains other = (decide (other = key) || store.contains other) := by
  unfold contains
  rw [get?_put]
  by_cases same : other = key
  · simp [same]
  · simp [same]

theorem countRun_eq_length (start : Bytes) (entries : List Entry) :
    countRun start entries = (entries.takeWhile (start.isPrefixOf ·.1)).length := by
  induction entries with
  | nil => rfl
  | cons entry rest ih =>
    unfold countRun
    rw [List.takeWhile_cons]
    split
    · rw [List.length_cons, ih]
    · rfl

theorem count_eq_length (store : Store) (start : Bytes) :
    store.count start = ((store.scan start).map (·.1)).length := by
  rw [List.length_map]
  exact countRun_eq_length start _

theorem mem_keys_scan {store : Store} {start key : Bytes} :
    key ∈ (store.scan start).map (·.1) ↔
      store.contains key = true ∧ start.isPrefixOf key = true := by
  rw [List.mem_map, contains_iff]
  constructor
  · rintro ⟨⟨_, value⟩, found, rfl⟩
    obtain ⟨there, begins⟩ := mem_scan.1 found
    exact ⟨⟨value, there⟩, begins⟩
  · rintro ⟨⟨value, there⟩, begins⟩
    exact ⟨(key, value), mem_scan.2 ⟨there, begins⟩, rfl⟩

theorem nodup_keys_scan (store : Store) (start : Bytes) : ((store.scan start).map (·.1)).Nodup := by
  rw [List.Nodup, List.pairwise_map]
  refine (sorted_scan store start).imp fun before same => ?_
  rw [same] at before
  exact List.lt_irrefl _ before

/-- Stores with the same keys of a kind count as many of them. -/
theorem count_congr {a b : Store} {start : Bytes}
    (same : ∀ key, start.isPrefixOf key = true → a.contains key = b.contains key) :
    a.count start = b.count start := by
  rw [count_eq_length, count_eq_length]
  refine ((List.perm_ext_iff_of_nodup (nodup_keys_scan a start) (nodup_keys_scan b start)).2
    fun key => ?_).length_eq
  rw [mem_keys_scan, mem_keys_scan]
  exact and_congr_left fun begins => by rw [same key begins]

/-- What the entries of a store count for together. -/
def total (weight : Entry → Nat) (store : Store) : Nat := (store.entries.map weight).sum

theorem sum_insertEntry (weight : Entry → Nat) (key value : Bytes) {entries : List Entry}
    (h : Sorted entries) :
    ((insertEntry key value entries).map weight).sum +
        ((entries.lookup key).map fun old => weight (key, old)).getD 0 =
      (entries.map weight).sum + weight (key, value) := by
  induction entries with
  | nil => simp [insertEntry]
  | cons e rest ih =>
    obtain ⟨k, v⟩ := e
    obtain ⟨first, later⟩ := List.pairwise_cons.1 h
    unfold insertEntry
    split
    · rename_i before
      have absent : ((k, v) :: rest).lookup key = none := by
        apply lookup_eq_none_of_lt
        intro e he
        rcases List.mem_cons.1 he with rfl | he
        · exact before
        · exact List.lt_trans before (first e he)
      simp only [absent, List.map_cons, List.sum_cons, Option.map_none, Option.getD_none]
      omega
    · split
      · rename_i same
        subst same
        simp only [List.lookup_cons, beq_self_eq_true, List.map_cons, List.sum_cons,
          Option.map_some, Option.getD_some]
        omega
      · rename_i other
        have skipped : ((k, v) :: rest).lookup key = rest.lookup key := by
          rw [List.lookup_cons, beq_false_of_ne other]
        have below := ih later
        simp only [skipped, List.map_cons, List.sum_cons]
        omega

theorem total_put (weight : Entry → Nat) (store : Store) (key value : Bytes) :
    (store.put key value).total weight +
        ((store.get? key).map fun old => weight (key, old)).getD 0 =
      store.total weight + weight (key, value) :=
  sum_insertEntry weight key value store.sorted

end Registrar.Store
