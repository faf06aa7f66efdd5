import Registrar.Fixed

/-!
The Keccak-256 hash: a sponge of 25 words of 64 bits that takes in 136 bytes at a time and gives out
32. Words are numbered by column `x` and row `y`.
-/

namespace Registrar.Keccak

abbrev State := Vector UInt64 25

def lane (s : State) (x y : Fin 5) : UInt64 := s[x.val + 5 * y.val]

/-- The state whose word in column `x` and row `y` is `f x y`. -/
def build (f : Fin 5 → Fin 5 → UInt64) : State :=
  Vector.ofFn fun i : Fin 25 => f ⟨i.val % 5, by omega⟩ ⟨i.val / 5, by omega⟩

def rotateLeft (w : UInt64) (k : Nat) : UInt64 :=
  if k % 64 = 0 then w
  else (w <<< UInt64.ofNat (k % 64)) ||| (w >>> UInt64.ofNat (64 - k % 64))

/-- Each word takes up the parity of the column before it and of the rotated column after it. -/
def theta (s : State) : State :=
  let parity := Vector.ofFn fun x : Fin 5 =>
    lane s x 0 ^^^ lane s x 1 ^^^ lane s x 2 ^^^ lane s x 3 ^^^ lane s x 4
  build fun x y => lane s x y ^^^ parity[x + 4] ^^^ rotateLeft parity[x + 1] 1

/-- By how much the word in column `x` and row `y` is rotated, at `x + 5 * y`. -/
def rotations : Vector Nat 25 :=
  #v[0, 1, 62, 28, 27,
     36, 44, 6, 55, 20,
     3, 10, 43, 25, 39,
     41, 45, 15, 21, 8,
     18, 2, 61, 56, 14]

/-- Words are rotated and moved: what comes to column `x` and row `y` stood in column `x + 3 * y`
and row `x`. -/
def rhoPi (s : State) : State :=
  build fun x y =>
    let column : Fin 5 := x + 3 * y
    rotateLeft (lane s column x) rotations[column.val + 5 * x.val]

/-- Along each row, a word is changed where the next is 0 and the one after it is 1. -/
def chi (s : State) : State :=
  build fun x y => lane s x y ^^^ (~~~(lane s (x + 1) y) &&& lane s (x + 2) y)

def roundConstants : List UInt64 :=
  [0x0000000000000001, 0x0000000000008082, 0x800000000000808a, 0x8000000080008000,
   0x000000000000808b, 0x0000000080000001, 0x8000000080008081, 0x8000000000008009,
   0x000000000000008a, 0x0000000000000088, 0x0000000080008009, 0x000000008000000a,
   0x000000008000808b, 0x800000000000008b, 0x8000000000008089, 0x8000000000008003,
   0x8000000000008002, 0x8000000000000080, 0x000000000000800a, 0x800000008000000a,
   0x8000000080008081, 0x8000000000008080, 0x0000000080000001, 0x8000000080008008]

def round (s : State) (constant : UInt64) : State :=
  let t := chi (rhoPi (theta s))
  t.set 0 (t[0] ^^^ constant)

def permute (s : State) : State := roundConstants.foldl round s

/-- Bytes taken in by one permutation. -/
def rate : Nat := 136

/-- A message filled up to whole blocks: a byte 1, zeros, and the highest bit of the last byte. -/
def pad (message : Bytes) : Bytes :=
  let short := rate - message.length % rate
  if short = 1 then message ++ [0x81]
  else message ++ [0x01] ++ List.replicate (short - 2) 0 ++ [0x80]

def absorb (s : State) (block : Bytes) : State :=
  permute (Vector.ofFn fun i : Fin 25 =>
    s[i] ^^^ UInt64.ofNat (Bytes.ofLittleEndian ((block.drop (8 * i.val)).take 8)))

/-- The state after all blocks of a padded message. -/
def sponge (padded : Bytes) : State :=
  (List.range (padded.length / rate)).foldl
    (fun s k => absorb s ((padded.drop (rate * k)).take rate)) (Vector.replicate 25 0)

/-- The hash as 32 bytes: the first four words. -/
def digest (message : Bytes) : Bytes :=
  let s := sponge (pad message)
  [s[0], s[1], s[2], s[3]].flatMap fun w => Bytes.littleEndian 8 w.toNat

theorem length_digest (message : Bytes) : (digest message).length = 32 := by
  simp [digest]

/-- The hash of a message, as a value of 32 bytes. -/
def hash {kind : FixedKind} (size_eq : kind.size = 32) (message : Bytes) : Fixed kind :=
  ⟨digest message, by rw [length_digest, size_eq]⟩

end Registrar.Keccak
