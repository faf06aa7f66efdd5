import Registrar.Entries
import Registrar.Text.Utf8

/-!
The key-value store: byte strings under byte-string keys, in ascending order of their keys. A scan
walks the entries from the first key that is not before the wanted start and stops at the first key
that does not begin with it; a count walks them on its own. `get?_put` and `get?_erase` say what is
read after a change.
-/

namespace Registrar

/-- Why a store call failed. -/
inductive StoreError where
  | io (message : String)
  | corrupted (key message : String)
  deriving DecidableEq, Repr

def StoreError.message : StoreError → String
  | .io message => s!"I/O error: {message}"
  | .corrupted key message => s!"Corrupted value under key {key}: {message}"

namespace Store

abbrev Entry := Bytes × Bytes

/-- Each key stands before all that follow. -/
abbrev Sorted (entries : List Entry) : Prop := entries.Pairwise fun a b => a.1 < b.1

def insertEntry (key value : Bytes) : List Entry → List Entry
  | [] => [(key, value)]
  | (k, v) :: rest =>
    if key < k then (key, value) :: (k, v) :: rest
    else if key = k then (key, value) :: rest
    else (k, v) :: insertEntry key value rest

theorem mem_insertEntry {key value : Bytes} {entries : List Entry} {e : Entry}
    (h : e ∈ insertEntry key value entries) : e = (key, value) ∨ e ∈ entries := by
  induction entries with
  | nil => simpa [insertEntry] using h
  | cons head rest ih =>
    obtain ⟨k, v⟩ := head
    unfold insertEntry at h
    split at h
    · simpa using h
    · split at h
      · simp only [List.mem_cons] at h ⊢
        rcases h with h | h
        · exact .inl h
        · exact .inr (.inr h)
      · simp only [List.mem_cons] at h ⊢
        rcases h with h | h
        · exact .inr (.inl h)
        · rcases ih h with h | h
          · exact .inl h
          · exact .inr (.inr h)

theorem lt_of_not_lt_of_ne {a b : Bytes} (h : ¬ a < b) (ne : a ≠ b) : b < a :=
  List.not_le.1 fun le => ne (List.le_antisymm le (List.not_lt.1 h))

theorem sorted_insertEntry {key value : Bytes} {entries : List Entry} (h : Sorted entries) :
    Sorted (insertEntry key value entries) := by
  induction entries with
  | nil => simp [insertEntry]
  | cons head rest ih =>
    obtain ⟨k, v⟩ := head
    obtain ⟨first, later⟩ := List.pairwise_cons.1 h
    unfold insertEntry
    split
    · rename_i lt
      refine List.pairwise_cons.2 ⟨fun e he => ?_, h⟩
      rcases List.mem_cons.1 he with rfl | he
      · exact lt
      · exact List.lt_trans lt (first e he)
    · rename_i nlt
      split
      · rename_i eq
        subst eq
        exact List.pairwise_cons.2 ⟨first, later⟩
      · rename_i ne
        refine List.pairwise_cons.2 ⟨fun e he => ?_, ih later⟩
        rcases mem_insertEntry he with rfl | he
        · exact lt_of_not_lt_of_ne nlt ne
        · exact first e he

theorem lookup_insertEntry (key value other : Bytes) (entries : List Entry) :
    (insertEntry key value entries).lookup other =
      if other = key then some value else entries.lookup other := by
  induction entries with
  | nil =>
    by_cases eq : other = key
    · simp [insertEntry, eq]
    · simp [insertEntry, eq, beq_false_of_ne eq]
  | cons head rest ih =>
    obtain ⟨k, v⟩ := head
    unfold insertEntry
    split
    · rw [List.lookup_cons]
      by_cases eq : other = key
      · simp [eq]
      · simp [eq, beq_false_of_ne eq]
    · split
      · rename_i same
        subst same
        rw [List.lookup_cons, List.lookup_cons]
        by_cases eq : other = key
        · simp [eq]
        · simp [eq, beq_false_of_ne eq]
      · rename_i ne
        rw [List.lookup_cons, List.lookup_cons, ih]
        by_cases eq : other = k
        · subst eq; simp [Ne.symm ne]
        · simp [beq_false_of_ne eq]

end Store

/-- A store: entries in ascending order of their keys. -/
structure Store where
  entries : List Store.Entry
  sorted : Store.Sorted entries

namespace Store

instance : DecidableEq Store := fun a b =>
  if h : a.entries = b.entries then .isTrue (by cases a; cases b; cases h; rfl)
  else .isFalse fun eq => h (by rw [eq])

def empty : Store := ⟨[], List.Pairwise.nil⟩

instance : Inhabited Store := ⟨empty⟩

def get? (store : Store) (key : Bytes) : Option Bytes := store.entries.lookup key

def contains (store : Store) (key : Bytes) : Bool := (store.get? key).isSome

/-- The store with `value` under `key`, whatever was there before. -/
def put (store : Store) (key value : Bytes) : Store :=
  ⟨insertEntry key value store.entries, sorted_insertEntry store.sorted⟩

/-- The store with nothing under `key`. -/
def erase (store : Store) (key : Bytes) : Store :=
  ⟨Entries.without key store.entries, store.sorted.filter _⟩

def size (store : Store) : Nat := store.entries.length

/-- The entries whose keys begin with `start`, in ascending order. -/
def scan (store : Store) (start : Bytes) : List Entry :=
  (store.entries.dropWhile (·.1 < start)).takeWhile (start.isPrefixOf ·.1)

/-- How many entries there are before the first whose key does not begin with `start`. -/
def countRun (start : Bytes) : List Entry → Nat
  | [] => 0
  | (key, _) :: rest => if start.isPrefixOf key then countRun start rest + 1 else 0

/-- How many keys begin with `start`. -/
def count (store : Store) (start : Bytes) : Nat :=
  countRun start (store.entries.dropWhile (·.1 < start))

@[simp] theorem get?_empty (key : Bytes) : empty.get? key = none := rfl

theorem get?_put (store : Store) (key value other : Bytes) :
    (store.put key value).get? other = if other = key then some value else store.get? other :=
  lookup_insertEntry key value other store.entries

theorem get?_erase (store : Store) (key other : Bytes) :
    (store.erase key).get? other = if other = key then none else store.get? other :=
  Entries.lookup_without key other store.entries

end Store

end Registrar
