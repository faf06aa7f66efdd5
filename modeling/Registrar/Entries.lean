/-!
Lists of keys with their values, of which a look-up finds the first. `lookup_without` says what it
finds once a key has been taken out.
-/

namespace Registrar.Entries

variable {κ ν : Type} [DecidableEq κ]

/-- The entries whose keys are not `key`. -/
def without (key : κ) (entries : List (κ × ν)) : List (κ × ν) := entries.filter (·.1 ≠ key)

theorem lookup_without [BEq κ] [LawfulBEq κ] (key other : κ) (entries : List (κ × ν)) :
    (without key entries).lookup other = if other = key then none else entries.lookup other := by
  unfold without
  induction entries with
  | nil => simp
  | cons entry rest ih =>
    obtain ⟨k, v⟩ := entry
    by_cases h : k = key
    · subst h
      rw [List.filter_cons_of_neg (by simp), ih, List.lookup_cons]
      by_cases eq : other = k
      · simp [eq]
      · simp [eq, beq_false_of_ne eq]
    · rw [List.filter_cons_of_pos (by simp [h]), List.lookup_cons, List.lookup_cons, ih]
      by_cases eq : other = k
      · subst eq; simp [h]
      · simp [beq_false_of_ne eq]

end Registrar.Entries
