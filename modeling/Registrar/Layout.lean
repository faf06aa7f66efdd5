import Registrar.Fixed

/-!
Byte layouts. A `Layout` pairs a writer with a reader that takes one value off the front of some
bytes and leaves the rest alone. Words are little-endian and of fixed width, a text is its length in
bytes and its UTF-8, an optional value is one byte and the value if there is one, and a member of an
enumeration is its position. Fields stand one after the other, and the first that cannot be read
gives the fault.
-/

namespace Registrar

namespace Layout

/-- Why bytes hold no value of a layout. -/
inductive Fault where
  | endOfWord
  | endOfText
  | notText (fault : Text.Utf8.Fault)
  | badOptionMark (mark : UInt8)
  | badVariant (number count : Nat)
  | badAmountLength (length : Nat)
  | badAmountDigit (byte : UInt8) (position : Nat)
  deriving DecidableEq, Repr

def Fault.message : Fault → String
  | .endOfWord => "io error: unexpected end of file"
  | .endOfText => "io error: "
  | .notText fault => s!"string is not valid utf8: {fault.message}"
  | .badOptionMark mark => s!"tag for enum is not valid, found {mark.toNat}"
  | .badVariant number count =>
    s!"invalid value: integer `{number}`, expected variant index 0 <= i < {count}"
  | .badAmountLength length =>
    s!"invalid length {length}, expected a (both 0x-prefixed or not) hex string or byte array containing between (0; 32] bytes"
  | .badAmountDigit byte position =>
    s!"invalid hex character: {String.ofList [Char.ofNat byte.toNat]}, at {position}"

end Layout

/-- How the values of a type are laid out in bytes. -/
structure Layout (α : Type) where
  write : α → Bytes
  read : Bytes → Except Layout.Fault (α × Bytes)

namespace Layout

variable {α β : Type}

/-- The value at the front of some bytes. -/
def decode (layout : Layout α) (bytes : Bytes) : Except Fault α :=
  (layout.read bytes).map (·.1)

/-- Exactly `size` bytes, or none of them. -/
def takeExactly (size : Nat) (fault : Fault) (bytes : Bytes) : Except Fault (Bytes × Bytes) :=
  if bytes.length < size then .error fault else .ok (bytes.take size, bytes.drop size)

/-- One value after another. -/
def pair (first : Layout α) (second : Layout β) : Layout (α × β) where
  write value := first.write value.1 ++ second.write value.2
  read bytes :=
    match first.read bytes with
    | .error fault => .error fault
    | .ok (a, rest) =>
      match second.read rest with
      | .error fault => .error fault
      | .ok (b, rest) => .ok ((a, b), rest)

/-- The same bytes for a type whose values are seen as values of another. -/
def imap (layout : Layout α) (view : α → β) (back : β → α) : Layout β where
  write value := layout.write (back value)
  read bytes := (layout.read bytes).map fun (a, rest) => (view a, rest)

/-- A number of `width` bytes. -/
def number (width : Nat) : Layout Nat where
  write n := Bytes.littleEndian width n
  read bytes :=
    (takeExactly width .endOfWord bytes).map fun (word, rest) => (Bytes.ofLittleEndian word, rest)

def word : Layout UInt64 := (number 8).imap UInt64.ofNat UInt64.toNat

def signedWord : Layout Int64 := word.imap UInt64.toInt64 Int64.toUInt64

/-- A value of fixed size is its bytes. -/
def fixed (kind : FixedKind) : Layout (Fixed kind) where
  write value := value.bytes
  read bytes :=
    if h : bytes.length < kind.size then .error .endOfWord
    else .ok (⟨bytes.take kind.size, by simp; omega⟩, bytes.drop kind.size)

def text : Layout String where
  write s :=
    let bytes := Text.bytes s
    Bytes.littleEndian 8 bytes.length ++ bytes
  read bytes :=
    match (number 8).read bytes with
    | .error fault => .error fault
    | .ok (length, rest) =>
      match takeExactly length .endOfText rest with
      | .error fault => .error fault
      | .ok (content, rest) =>
        match Text.ofBytes content with
        | .error fault => .error (.notText fault)
        | .ok s => .ok (s, rest)

def option (layout : Layout α) : Layout (Option α) where
  write
    | none => [0]
    | some value => 1 :: layout.write value
  read
    | [] => .error .endOfWord
    | mark :: rest =>
      if mark = 0 then .ok (none, rest)
      else if mark = 1 then (layout.read rest).map fun (value, rest) => (some value, rest)
      else .error (.badOptionMark mark)

/-- A member of an enumeration that is listed in full. -/
def variant [DecidableEq α] (all : List α) : Layout α where
  write value := Bytes.littleEndian 4 (all.idxOf value)
  read bytes :=
    match (number 4).read bytes with
    | .error fault => .error fault
    | .ok (n, rest) =>
      match all[n]? with
      | some value => .ok (value, rest)
      | none => .error (.badVariant n all.length)

end Layout

end Registrar
