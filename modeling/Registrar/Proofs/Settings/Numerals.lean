import Mathlib.Data.List.DropRight
import Mathlib.Tactic.Common
import Registrar.Text.Blank
import Registrar.Text.Numeral

/-!
Text without the white space around it, and how numbers are spelled in decimal.

* `Text.trim_eq_iff`: what is left of a text is what stands in it between white space;
* `Numeral.parse_eq_ok_iff`: a number is read from its digits, after one `+` or none, if it is below the
  limit, and from nothing else;
* `Numeral.decimal_toString`: a number is spelled by what is written for it.
-/

namespace Registrar.Text

section Trim

variable {raw text before after : List Char}

/-- The text is what stands between the white space at the ends of `raw`. -/
structure TrimsTo (raw text : List Char) : Prop where
  padded : ∃ before after, raw = before ++ text ++ after ∧
    (∀ c ∈ before, isBlank c = true) ∧ ∀ c ∈ after, isBlank c = true
  first : ∀ c ∈ text.head?, isBlank c = false
  last : ∀ c ∈ text.getLast?, isBlank c = false

theorem trimStart_of_first (first : ∀ c ∈ text.head?, isBlank c = false) : trimStart text = text := by
  cases text with
  | nil => rfl
  | cons c rest => exact List.dropWhile_cons_of_neg (by simp [first c rfl])

theorem trimEnd_of_last (last : ∀ c ∈ text.getLast?, isBlank c = false) : trimEnd text = text := by
  have turned : trimStart text.reverse = text.reverse := trimStart_of_first (by simpa using last)
  rw [trimEnd, ← trimStart, turned, List.reverse_reverse]

theorem first_trimStart (text : List Char) : ∀ c ∈ (trimStart text).head?, isBlank c = false := by
  intro c found
  have first := List.head?_dropWhile_not isBlank text
  rw [← trimStart, found] at first
  exact first

theorem last_trimEnd (text : List Char) : ∀ c ∈ (trimEnd text).getLast?, isBlank c = false := by
  rw [trimEnd, List.getLast?_reverse]
  exact first_trimStart text.reverse

theorem TrimsTo.trim_eq (trims : TrimsTo raw text) : trim raw = text := by
  obtain ⟨⟨before, after, rfl, blank, blank'⟩, first, last⟩ := trims
  have start : trimStart (before ++ text ++ after) = trimStart (text ++ after) := by
    rw [List.append_assoc, trimStart, List.dropWhile_append_of_pos blank, ← trimStart]
  have rest : trimEnd (text ++ after) = text := by
    have blank : ∀ c ∈ after.reverse, isBlank c = true := by simpa using blank'
    rw [trimEnd, List.reverse_append, List.dropWhile_append_of_pos blank]
    exact trimEnd_of_last last
  rw [trim, start]
  cases text with
  | nil => simp [trimStart, trimEnd, List.dropWhile_eq_nil_iff.2 blank']
  | cons c text => rw [trimStart_of_first (by simpa using first), rest]

theorem trimsTo_trim (raw : List Char) : TrimsTo raw (trim raw) := by
  have split : trim raw ++ (trimStart raw).rtakeWhile isBlank = trimStart raw :=
    List.rdropWhile_append_rtakeWhile
  refine ⟨⟨raw.takeWhile isBlank, (trimStart raw).rtakeWhile isBlank, ?_,
    fun c => List.mem_takeWhile_imp, fun c => List.mem_rtakeWhile_imp⟩, ?_, last_trimEnd _⟩
  · rw [List.append_assoc, split]
    exact List.takeWhile_append_dropWhile.symm
  · intro c found
    apply first_trimStart raw
    rw [← split, List.head?_append, found]
    rfl

theorem trim_eq_iff : trim raw = text ↔ TrimsTo raw text :=
  ⟨fun trimmed => trimmed ▸ trimsTo_trim raw, TrimsTo.trim_eq⟩

/-- A text without white space is all that is left of it with white space around. -/
theorem trimsTo_of_padded (blank : ∀ c ∈ before, isBlank c = true)
    (blank' : ∀ c ∈ after, isBlank c = true) (solid : ∀ c ∈ text, isBlank c = false) :
    TrimsTo (before ++ text ++ after) text where
  padded := ⟨before, after, rfl, blank, blank'⟩
  first c found := solid c (List.mem_of_mem_head? found)
  last c found := solid c (List.mem_of_getLast? found)

end Trim

namespace Numeral

variable {limit value n : Nat} {text digits : List Char} {c : Char}

/-- One or more digits that stand for the number, after one `+` or none. -/
def Decimal (text : List Char) (n : Nat) : Prop :=
  ∃ digits, (text = digits ∨ text = '+' :: digits) ∧ digits ≠ [] ∧
    (∀ c ∈ digits, c.isDigit = true) ∧ Nat.ofDigitChars 10 digits 0 = n

theorem digit?_eq (c : Char) :
    digit? c = if c.isDigit = true then some (c.toNat - '0'.toNat) else none := by
  have range : ('0' ≤ c ∧ c ≤ '9') ↔ c.isDigit = true := by
    rw [Char.isDigit_iff_toNat]
    rfl
  rw [digit?, ite_cond_congr (propext range)]

/-- More digits make no number smaller. -/
theorem le_ofDigitChars (digits : List Char) (value : Nat) : value ≤ Nat.ofDigitChars 10 digits value := by
  induction digits generalizing value with
  | nil => exact Nat.le_refl _
  | cons c rest ih =>
    rw [Nat.ofDigitChars_cons]
    exact Nat.le_trans (by omega) (ih _)

theorem continueFrom_eq_ok_iff (small : value < limit) : continueFrom limit value digits = .ok n ↔
    (∀ c ∈ digits, c.isDigit = true) ∧ Nat.ofDigitChars 10 digits value = n ∧ n < limit := by
  induction digits generalizing value with
  | nil =>
    simp only [continueFrom, Except.ok.injEq, Nat.ofDigitChars_nil, List.not_mem_nil, false_implies,
      implies_true, true_and]
    exact ⟨fun same => ⟨same, same ▸ small⟩, And.left⟩
  | cons c rest ih =>
    rw [continueFrom, digit?_eq, Nat.ofDigitChars_cons, List.forall_mem_cons]
    by_cases isDigit : c.isDigit = true
    · rw [if_pos isDigit]
      dsimp only
      split
      · rename_i small
        rw [ih small, and_assoc]
        exact (and_iff_right isDigit).symm
      · -- once too large, the number stays so
        rename_i large
        have grows := le_ofDigitChars rest (10 * value + (c.toNat - '0'.toNat))
        refine iff_of_false nofun ?_
        rintro ⟨-, rfl, small⟩
        omega
    · rw [if_neg isDigit]
      exact iff_of_false nofun fun spelled => isDigit spelled.1.1

/-- A sign is no digit, so the digits behind one are all that it leaves. -/
theorem decimal_iff_dropPlus : Decimal text n ↔ dropPlus text ≠ [] ∧
    (∀ c ∈ dropPlus text, c.isDigit = true) ∧ Nat.ofDigitChars 10 (dropPlus text) 0 = n := by
  constructor
  · rintro ⟨digits, rfl | rfl, some, digit, same⟩
    · have unsigned : dropPlus text = text := by
        unfold dropPlus
        split
        · exact absurd (digit '+' (by simp)) (by decide)
        · rfl
      rw [unsigned]
      exact ⟨some, digit, same⟩
    · exact ⟨some, digit, same⟩
  · intro spelled
    refine ⟨dropPlus text, ?_, spelled⟩
    unfold dropPlus
    split
    · exact .inr rfl
    · exact .inl rfl

/-- Nothing is read but digits of a number below the limit. -/
theorem parse_eq_ok_iff (positive : 0 < limit) :
    parse limit text = .ok n ↔ Decimal text n ∧ n < limit := by
  have read : dropPlus text ≠ [] → parse limit text = continueFrom limit 0 (dropPlus text) := by
    intro some
    unfold parse
    split
    · exact absurd rfl some
    · exact absurd ‹_› some
    · rfl
  rw [decimal_iff_dropPlus]
  by_cases some : dropPlus text = []
  · refine iff_of_false ?_ fun spelled => spelled.1.1 some
    unfold parse
    split
    · nofun
    · nofun
    · exact absurd some ‹_›
  · rw [read some, continueFrom_eq_ok_iff positive, and_iff_right some, and_assoc]

theorem toList_toString (n : Nat) : (toString n).toList = Nat.toDigits 10 n := by
  rw [Nat.toString_eq_ofList_toDigits, String.toList_ofList]

/-- A number is spelled by what is written for it. -/
theorem decimal_toString (n : Nat) : Decimal (toString n).toList n := by
  rw [toList_toString]
  exact ⟨_, .inl rfl, Nat.toDigits_ne_nil,
    fun c there => Nat.isDigit_of_mem_toDigits (by decide) (by decide) there,
    Nat.ofDigitChars_ten_toDigits⟩

theorem not_isBlank_of_isDigit (isDigit : c.isDigit = true) : isBlank c = false := by
  obtain ⟨low, high⟩ := Char.isDigit_iff_toNat.1 isDigit
  have zero : '0'.toNat = 0x30 := rfl
  have nine : '9'.toNat = 0x39 := rfl
  rw [Bool.eq_false_iff]
  simp only [isBlank, ne_eq, Bool.or_eq_true, Bool.and_eq_true, decide_eq_true_eq, beq_iff_eq]
  omega

theorem not_isBlank_toString : ∀ c ∈ (toString n).toList, isBlank c = false := by
  rw [toList_toString]
  exact fun c there => not_isBlank_of_isDigit (Nat.isDigit_of_mem_toDigits (by decide) (by decide) there)

end Numeral

end Registrar.Text
