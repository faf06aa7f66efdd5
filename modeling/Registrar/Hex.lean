import Registrar.Bytes

/-!
Hexadecimal digits. `encode` writes each byte as two lower-case digits, `decode` reads two digits of
either case as a byte. A fault is named by the first of two checks that fails: an even number of
digits, then the leftmost byte that is no digit.
-/

namespace Registrar.Hex

/-- Why a run of bytes is no sequence of hexadecimal digit pairs. -/
inductive Fault where
  | oddLength
  | badDigit (byte : UInt8) (position : Nat)
  deriving DecidableEq, Repr

/-- The lower-case digit of a number below sixteen. -/
def digit (n : Nat) : Char :=
  if n < 10 then Char.ofNat (0x30 + n) else Char.ofNat (0x57 + n)

/-- The value of a digit, given as its ASCII byte. -/
def value? (b : UInt8) : Option Nat :=
  let n := b.toNat
  if 0x30 ≤ n ∧ n ≤ 0x39 then some (n - 0x30)
  else if 0x61 ≤ n ∧ n ≤ 0x66 then some (n - 0x57)
  else if 0x41 ≤ n ∧ n ≤ 0x46 then some (n - 0x37)
  else none

def encodeByte (b : UInt8) : List Char := [digit (b.toNat / 16), digit (b.toNat % 16)]

/-- The digits of some bytes, two for each. -/
def encode (bytes : Bytes) : List Char := bytes.flatMap encodeByte

/-- The bytes that digit pairs stand for, the first digit being at `position`. -/
def decodePairs (position : Nat) : Bytes → Except Fault Bytes
  | [] => .ok []
  | [_] => .error .oddLength
  | high :: low :: rest =>
    match value? high, value? low with
    | none, _ => .error (.badDigit high position)
    | _, none => .error (.badDigit low (position + 1))
    | some h, some l => (decodePairs (position + 2) rest).map (UInt8.ofNat (16 * h + l) :: ·)

def decode (digits : Bytes) : Except Fault Bytes :=
  if digits.length % 2 = 1 then .error .oddLength else decodePairs 0 digits

/-- The digits of a number without leading zeros, most significant first; zero has none. -/
def digitsOf (n : Nat) : List Char :=
  if n = 0 then [] else digitsOf (n / 16) ++ [digit (n % 16)]
termination_by n

/-- A number in its fewest digits. -/
def ofNat (n : Nat) : List Char := if n = 0 then ['0'] else digitsOf n

def backslash : Char := Char.ofNat 0x5C

def quote : Char := Char.ofNat 0x27

/-- A byte taken as the character of that number and put between quotes: controls and the two blank
or invisible characters above `0x7F` by number, the quote and the backslash after a backslash. -/
def quoteByte (b : UInt8) : String :=
  let n := b.toNat
  let inner :=
    if n = 0x00 then [backslash, '0']
    else if n = 0x09 then [backslash, 't']
    else if n = 0x0A then [backslash, 'n']
    else if n = 0x0D then [backslash, 'r']
    else if n = 0x27 ∨ n = 0x5C then [backslash, Char.ofNat n]
    else if n < 0x20 ∨ (0x7F ≤ n ∧ n ≤ 0xA0) ∨ n = 0xAD then
      [backslash, 'u', '\x7b'] ++ ofNat n ++ ['\x7d']
    else [Char.ofNat n]
  String.ofList ([quote] ++ inner ++ [quote])

def Fault.message : Fault → String
  | .oddLength => "Odd number of digits"
  | .badDigit byte position => s!"Invalid character {quoteByte byte} at position {position}"

end Registrar.Hex
