/-!
Numbers and truth values as settings spell them. A number is one or more decimal digits, after one
`+` or none; it has to stay below the limit of its type.
-/

namespace Registrar.Text

namespace Numeral

/-- Why a text is no number of the asked type. -/
inductive Fault where
  | empty
  | badDigit
  | tooLarge
  deriving DecidableEq, Repr

def Fault.message : Fault → String
  | .empty => "cannot parse integer from empty string"
  | .badDigit => "invalid digit found in string"
  | .tooLarge => "number too large to fit in target type"

def digit? (c : Char) : Option Nat :=
  if '0' ≤ c ∧ c ≤ '9' then some (c.toNat - '0'.toNat) else none

/-- The number that `value`, followed by some more digits, stands for. A character that is no digit
counts before a number that has grown too large, from left to right. -/
def continueFrom (limit value : Nat) : List Char → Except Fault Nat
  | [] => .ok value
  | c :: rest =>
    match digit? c with
    | none => .error .badDigit
    | some d =>
      if 10 * value + d < limit then continueFrom limit (10 * value + d) rest else .error .tooLarge

def dropPlus : List Char → List Char
  | '+' :: rest => rest
  | text => text

/-- The number below `limit` that a text spells. -/
def parse (limit : Nat) (text : List Char) : Except Fault Nat :=
  match text, dropPlus text with
  | [], _ => .error .empty
  | _, [] => .error .badDigit
  | _, digits => continueFrom limit 0 digits

end Numeral

/-- The truth value that a text spells. -/
def parseBool? (text : List Char) : Option Bool :=
  if text = ['t', 'r', 'u', 'e'] then some true
  else if text = ['f', 'a', 'l', 's', 'e'] then some false
  else none

end Registrar.Text
