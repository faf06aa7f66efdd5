import Registrar.Bytes

/-!
UTF-8. `encode` writes the characters of a text; `decode` reads them back or names the first place
where the bytes stop being UTF-8: the length of the longest piece that could still have begun a
character, or that the bytes end inside one.
-/

namespace Registrar.Text

namespace Utf8

/-- Why bytes are no UTF-8, and from which byte on. -/
inductive Fault where
  | invalid (length position : Nat)
  | incomplete (position : Nat)
  deriving DecidableEq, Repr

/-- What a reader is told about a fault. -/
def Fault.message : Fault → String
  | .invalid length position => s!"invalid utf-8 sequence of {length} bytes from index {position}"
  | .incomplete position => s!"incomplete utf-8 byte sequence from index {position}"

/-- A byte that continues a character, carrying six of its bits. -/
def tailByte (n : Nat) : UInt8 := UInt8.ofNat (0x80 + n % 64)

def encodeChar (c : Char) : Bytes :=
  let n := c.toNat
  if n < 0x80 then [UInt8.ofNat n]
  else if n < 0x800 then [UInt8.ofNat (0xC0 + n / 64), tailByte n]
  else if n < 0x10000 then [UInt8.ofNat (0xE0 + n / 4096), tailByte (n / 64), tailByte n]
  else [UInt8.ofNat (0xF0 + n / 262144), tailByte (n / 4096), tailByte (n / 64), tailByte n]

def encode (text : List Char) : Bytes :=
  text.flatMap encodeChar

/-- What the first byte of a character announces: how many bytes follow, and the range of the
first of them. The ranges leave out overlong forms, surrogates and numbers above `0x10FFFF`. -/
inductive Lead where
  | alone
  | follow (count low high : Nat)
  | none
  deriving DecidableEq, Repr

def lead (b : Nat) : Lead :=
  if b < 0x80 then .alone
  else if 0xC2 ≤ b ∧ b ≤ 0xDF then .follow 1 0x80 0xBF
  else if b = 0xE0 then .follow 2 0xA0 0xBF
  else if b = 0xED then .follow 2 0x80 0x9F
  else if 0xE1 ≤ b ∧ b ≤ 0xEF then .follow 2 0x80 0xBF
  else if b = 0xF0 then .follow 3 0x90 0xBF
  else if 0xF1 ≤ b ∧ b ≤ 0xF3 then .follow 3 0x80 0xBF
  else if b = 0xF4 then .follow 3 0x80 0x8F
  else .none

/-- A byte that may continue a character. -/
def isTail (b : UInt8) : Bool := 0x80 ≤ b.toNat ∧ b.toNat ≤ 0xBF

/-- The characters of the bytes from `position` on. -/
def decodeFrom (position : Nat) : Bytes → Except Fault (List Char)
  | [] => .ok []
  | b :: rest =>
    match lead b.toNat with
    | .none => .error (.invalid 1 position)
    | .alone => (decodeFrom (position + 1) rest).map (Char.ofNat b.toNat :: ·)
    | .follow count low high =>
      match rest with
      | [] => .error (.incomplete position)
      | b₁ :: rest₁ =>
        if ¬ (low ≤ b₁.toNat ∧ b₁.toNat ≤ high) then .error (.invalid 1 position)
        else if count = 1 then
          (decodeFrom (position + 2) rest₁).map
            (Char.ofNat (b.toNat % 32 * 64 + b₁.toNat % 64) :: ·)
        else match rest₁ with
          | [] => .error (.incomplete position)
          | b₂ :: rest₂ =>
            if ¬ isTail b₂ then .error (.invalid 2 position)
            else if count = 2 then
              (decodeFrom (position + 3) rest₂).map
                (Char.ofNat ((b.toNat % 16 * 64 + b₁.toNat % 64) * 64 + b₂.toNat % 64) :: ·)
            else match rest₂ with
              | [] => .error (.incomplete position)
              | b₃ :: rest₃ =>
                if ¬ isTail b₃ then .error (.invalid 3 position)
                else (decodeFrom (position + 4) rest₃).map
                  (Char.ofNat (((b.toNat % 8 * 64 + b₁.toNat % 64) * 64 + b₂.toNat % 64) * 64
                    + b₃.toNat % 64) :: ·)

def decode (bytes : Bytes) : Except Fault (List Char) := decodeFrom 0 bytes

end Utf8

/-- The UTF-8 bytes of a text. -/
def bytes (text : String) : Bytes := Utf8.encode text.toList

/-- The text whose UTF-8 bytes are given. -/
def ofBytes (bytes : Bytes) : Except Utf8.Fault String :=
  (Utf8.decode bytes).map String.ofList

end Registrar.Text
