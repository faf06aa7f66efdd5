/-!
Byte strings and the two byte orders of a number. A word is written in a fixed number of bytes, so
`ofLittleEndian_littleEndian` recovers it up to that width.
-/

namespace Registrar

/-- A byte string, as stored under a key, hashed, or carried by a key itself. -/
abbrev Bytes := List UInt8

namespace Bytes

/-- The lowest `width` base-256 digits of a number, least significant first. -/
def littleEndian : Nat → Nat → Bytes
  | 0, _ => []
  | width + 1, n => UInt8.ofNat (n % 256) :: littleEndian width (n / 256)

/-- The number whose base-256 digits are given, least significant first. -/
def ofLittleEndian : Bytes → Nat
  | [] => 0
  | b :: rest => b.toNat + 256 * ofLittleEndian rest

/-- How many numbers have at most `width` base-256 digits. -/
def span : Nat → Nat
  | 0 => 1
  | width + 1 => 256 * span width

/-- The lowest `width` base-256 digits of a number, most significant first. -/
def bigEndian (width n : Nat) : Bytes :=
  (littleEndian width n).reverse

@[simp] theorem length_littleEndian (width n : Nat) : (littleEndian width n).length = width := by
  induction width generalizing n with
  | zero => rfl
  | succ width ih => simp [littleEndian, ih]

@[simp] theorem length_bigEndian (width n : Nat) : (bigEndian width n).length = width := by
  simp [bigEndian]

theorem ofLittleEndian_littleEndian (width n : Nat) :
    ofLittleEndian (littleEndian width n) = n % span width := by
  induction width generalizing n with
  | zero => simp [littleEndian, ofLittleEndian, span, Nat.mod_one]
  | succ width ih =>
    have digit : (UInt8.ofNat (n % 256)).toNat = n % 256 := by
      simp only [UInt8.toNat_ofNat']; omega
    simp only [littleEndian, ofLittleEndian, span, ih, digit]
    rw [Nat.mod_mul]

theorem littleEndian_ofLittleEndian (bytes : Bytes) :
    littleEndian bytes.length (ofLittleEndian bytes) = bytes := by
  induction bytes with
  | nil => rfl
  | cons b rest ih =>
    have small := b.toNat_lt
    have low : (b.toNat + 256 * ofLittleEndian rest) % 256 = b.toNat := by omega
    have high : (b.toNat + 256 * ofLittleEndian rest) / 256 = ofLittleEndian rest := by omega
    simp [littleEndian, ofLittleEndian, low, high, ih]

theorem ofLittleEndian_lt (bytes : Bytes) : ofLittleEndian bytes < span bytes.length := by
  induction bytes with
  | nil => simp [ofLittleEndian, span]
  | cons b rest ih =>
    have small := b.toNat_lt
    simp only [ofLittleEndian, List.length_cons, span]
    omega

end Bytes

/-- The sum of two words, held at the largest word where it would overflow. -/
def saturatingAdd (a b : UInt64) : UInt64 :=
  if a.toNat + b.toNat < UInt64.size then a + b else UInt64.ofNat (UInt64.size - 1)

theorem toNat_saturatingAdd (a b : UInt64) :
    (saturatingAdd a b).toNat = min (UInt64.size - 1) (a.toNat + b.toNat) := by
  unfold saturatingAdd UInt64.size
  split
  · rename_i fits
    rw [UInt64.toNat_add, Nat.mod_eq_of_lt fits]; omega
  · rename_i full
    simp only [UInt64.toNat_ofNat']
    omega

end Registrar
