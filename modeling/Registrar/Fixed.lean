import Registrar.Hex
import Registrar.Text.Utf8

/-!
Values of a fixed number of bytes: account addresses, transaction hashes, commitments and secrets.
The four kinds are written and read alike, as `0x` and two digits for each byte; reading also takes
`0X` or no mark, and digits of either case.
-/

namespace Registrar

/-- What a value of fixed size stands for. -/
inductive FixedKind where
  | address
  | txHash
  | commitment
  | secret
  deriving DecidableEq, Repr

/-- The number of bytes of a value. -/
def FixedKind.size : FixedKind → Nat
  | .address => 20
  | .txHash | .commitment | .secret => 32

/-- The name of a kind of value. -/
def FixedKind.label : FixedKind → String
  | .address => "Address"
  | .txHash => "TxHash"
  | .commitment => "Commitment"
  | .secret => "Secret"

/-- A value of the size of its kind. -/
structure Fixed (kind : FixedKind) where
  bytes : Bytes
  size_eq : bytes.length = kind.size
  deriving DecidableEq

abbrev Address := Fixed .address
abbrev TxHash := Fixed .txHash
abbrev Commitment := Fixed .commitment
abbrev Secret := Fixed .secret

namespace Fixed

variable {kind : FixedKind}

@[ext] theorem ext {a b : Fixed kind} (h : a.bytes = b.bytes) : a = b := by
  cases a; cases b; cases h; rfl

/-- The value with every byte equal to `b`. -/
def fill (b : UInt8) : Fixed kind := ⟨List.replicate kind.size b, by simp⟩

def zero : Fixed kind := fill 0

instance : Inhabited (Fixed kind) := ⟨zero⟩

def isZero (value : Fixed kind) : Bool := value.bytes.all (· == 0)

/-- The value with the given bytes, if they are as many as its kind has. -/
def ofBytes? (bytes : Bytes) : Option (Fixed kind) :=
  if h : bytes.length = kind.size then some ⟨bytes, h⟩ else none

def chars (value : Fixed kind) : List Char := '0' :: 'x' :: Hex.encode value.bytes

/-- The written form of a value. -/
def render (value : Fixed kind) : String := String.ofList value.chars

/-- The written form of a value with the name of its kind. -/
def describe (value : Fixed kind) : String := s!"{kind.label}({value.render})"

/-- How two values compare, byte by byte from the first. -/
def order (a b : Fixed kind) : Ordering := compareOfLessAndEq a.bytes b.bytes

/-- Why a text is no value of a kind. -/
inductive ParseError where
  | invalidHex (input : String) (fault : Hex.Fault)
  | invalidLength (expected actual : Nat)
  deriving DecidableEq, Repr

def ParseError.message : ParseError → String
  | .invalidHex input fault => s!"Invalid hex '{input}': {fault.message}"
  | .invalidLength expected actual => s!"Invalid length: expected {expected} bytes, got {actual}"

/-- The text after one mark `0x` or `0X`, or the whole text. -/
def dropMark : List Char → List Char
  | '0' :: 'x' :: rest => rest
  | '0' :: 'X' :: rest => rest
  | text => text

/-- The value that a text spells. -/
def parse (text : String) : Except ParseError (Fixed kind) :=
  match Hex.decode (Text.Utf8.encode (dropMark text.toList)) with
  | .error fault => .error (.invalidHex text fault)
  | .ok bytes =>
    match ofBytes? bytes with
    | some value => .ok value
    | none => .error (.invalidLength kind.size bytes.length)

end Fixed

end Registrar
