import Registrar.Entries

/-!
Finite tables: at most one value for each key. `find?_set` and `find?_erase` say what a look-up
finds after a change.
-/

namespace Registrar

structure Table (κ ν : Type) where
  entries : List (κ × ν)
  deriving DecidableEq

namespace Table

variable {κ ν : Type} [DecidableEq κ]

def empty : Table κ ν := ⟨[]⟩

instance : Inhabited (Table κ ν) := ⟨empty⟩

def find? (table : Table κ ν) (key : κ) : Option ν := table.entries.lookup key

def contains (table : Table κ ν) (key : κ) : Bool := (table.find? key).isSome

/-- The table without a value for `key`. -/
def erase (table : Table κ ν) (key : κ) : Table κ ν := ⟨Entries.without key table.entries⟩

/-- The table with `value` for `key`. -/
def set (table : Table κ ν) (key : κ) (value : ν) : Table κ ν :=
  ⟨(key, value) :: (table.erase key).entries⟩

@[simp] theorem find?_empty (key : κ) : (empty : Table κ ν).find? key = none := rfl

theorem find?_erase (table : Table κ ν) (key other : κ) :
    (table.erase key).find? other = if other = key then none else table.find? other :=
  Entries.lookup_without key other table.entries

theorem find?_set (table : Table κ ν) (key other : κ) (value : ν) :
    (table.set key value).find? other = if other = key then some value else table.find? other := by
  have below := find?_erase table key other
  simp only [find?] at below ⊢
  rw [set, List.lookup_cons, below]
  by_cases h : other = key
  · simp [h]
  · simp [h, beq_false_of_ne h]

end Table

end Registrar
