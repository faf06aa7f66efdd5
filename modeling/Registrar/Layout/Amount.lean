import Registrar.Layout

/-!
Amounts of up to 256 bits. An amount is laid out as a text, `0x` and its fewest hexadecimal digits.
Reading is more generous: the mark may be missing, and blanks may stand among the digits.
-/

namespace Registrar

abbrev Amount := BitVec 256

namespace Amount

def render (amount : Amount) : String := String.ofList ('0' :: 'x' :: Hex.ofNat amount.toNat)

def isGap (b : UInt8) : Bool := b = 0x20 ∨ b = 0x0D ∨ b = 0x0A ∨ b = 0x09

/-- The values of the digits, blanks left out, the first byte being at `position`. -/
def digitValues (position : Nat) : Bytes → Except Layout.Fault (List Nat)
  | [] => .ok []
  | b :: rest =>
    if isGap b then digitValues (position + 1) rest
    else match Hex.value? b with
      | none => .error (.badAmountDigit b position)
      | some d => (digitValues (position + 1) rest).map (d :: ·)

/-- The amount that some digits make up when they are taken in pairs, the first one standing alone
if the text has an odd length. A last digit without a partner is left out. -/
def ofDigits (length : Nat) (digits : List Nat) : Amount :=
  let paired := if (digits.length + length) % 2 = 1 then digits.dropLast else digits
  BitVec.ofNat 256 (paired.foldl (fun n d => 16 * n + d) 0)

/-- The amount that a text spells. -/
def parse (text : String) : Except Layout.Fault Amount :=
  let (offset, digits) := match text.toList with
    | '0' :: 'x' :: rest => (2, Text.Utf8.encode rest)
    | whole => (0, Text.Utf8.encode whole)
  if digits.length = 0 ∨ 64 < digits.length then .error (.badAmountLength digits.length)
  else (digitValues offset digits).map (ofDigits digits.length)

def layout : Layout Amount where
  write amount := Layout.text.write amount.render
  read bytes :=
    match Layout.text.read bytes with
    | .error fault => .error fault
    | .ok (s, rest) => (parse s).map fun amount => (amount, rest)

end Amount

end Registrar
