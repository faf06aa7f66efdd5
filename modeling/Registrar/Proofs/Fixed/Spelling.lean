import Registrar.Proofs.Layout.RoundTrip

/-!
How values of fixed size are spelled. A value is read from two digits of either case for each of its
bytes, after one mark or none, and from nothing else:

* `Hex.Spells`: the digits of some bytes, and `Hex.decode_of_spells`: such digits are read as them;
* `Hex.decode_odd`, `Hex.decode_bad`: what else a text can be, and how it is refused, the number of its
  bytes before its first character that is no digit;
* `Fixed.parse_spelled`: which texts are read as which values, which error the others get, and that what
  is read is written in lower case.
-/

namespace Registrar

open Text.Utf8 (encodeChar toNat_ofNat_of_lt)

namespace Hex

/-- The digits with the numbers that they stand for. Those above nine are letters of either case. -/
def numerals : List (Char × Nat) :=
  ['0', '1', '2', '3', '4', '5', '6', '7', '8', '9', 'a', 'b', 'c', 'd', 'e', 'f'].zipIdx ++
    ['A', 'B', 'C', 'D', 'E', 'F'].zipIdx 10

/-- The character is a digit for the number. -/
def StandsFor (c : Char) (n : Nat) : Prop := (c, n) ∈ numerals

def IsDigit (c : Char) : Prop := ∃ n, StandsFor c n

instance : DecidablePred IsDigit := fun c =>
  decidable_of_iff (c ∈ numerals.map (·.1)) (by simp [IsDigit, StandsFor])

/-- Two digits for each byte, the higher first. -/
inductive Spells : List Char → Bytes → Prop where
  | nil : Spells [] []
  | cons {high low : Char} {digits : List Char} {b : UInt8} {bytes : Bytes}
    (above : StandsFor high (b.toNat / 16)) (below : StandsFor low (b.toNat % 16))
    (later : Spells digits bytes) : Spells (high :: low :: digits) (b :: bytes)

/-- How many bytes the characters of a text take. -/
def byteLength (text : List Char) : Nat := (text.map Char.utf8Size).sum

section Characters

variable {c : Char} {n : Nat}

theorem numerals_facts : ∀ entry ∈ numerals, entry.2 < 16 ∧ entry.1.toLower = digit entry.2 ∧
    encodeChar entry.1 = [UInt8.ofNat entry.1.toNat] ∧
    value? (UInt8.ofNat entry.1.toNat) = some entry.2 := by
  decide

theorem StandsFor.lt (stands : StandsFor c n) : n < 16 := (numerals_facts _ stands).1

theorem StandsFor.toLower (stands : StandsFor c n) : c.toLower = digit n :=
  (numerals_facts _ stands).2.1

theorem StandsFor.encodeChar_eq (stands : StandsFor c n) :
    encodeChar c = [UInt8.ofNat c.toNat] :=
  (numerals_facts _ stands).2.2.1

theorem StandsFor.value?_eq (stands : StandsFor c n) : value? (UInt8.ofNat c.toNat) = some n :=
  (numerals_facts _ stands).2.2.2

theorem standsFor_digit : ∀ n < 16, StandsFor (digit n) n := by
  unfold StandsFor
  decide

/-- A byte of ASCII has the value of a digit only as that digit. -/
theorem standsFor_of_value? : ∀ k < 0x80, ∀ n ∈ value? (UInt8.ofNat k), StandsFor (Char.ofNat k) n := by
  unfold StandsFor
  decide

theorem value?_of_le {b : UInt8} (high : 0x80 ≤ b.toNat) : value? b = none := by
  unfold value?
  dsimp only
  rw [if_neg (by omega), if_neg (by omega), if_neg (by omega)]

theorem length_encodeChar (c : Char) : (encodeChar c).length = c.utf8Size := by
  have one : c.val ≤ 0x7F ↔ c.toNat < 0x80 := by
    rw [UInt32.le_iff_toNat_le]
    exact Nat.lt_succ_iff.symm
  have two : c.val ≤ 0x7FF ↔ c.toNat < 0x800 := by
    rw [UInt32.le_iff_toNat_le]
    exact Nat.lt_succ_iff.symm
  have three : c.val ≤ 0xFFFF ↔ c.toNat < 0x10000 := by
    rw [UInt32.le_iff_toNat_le]
    exact Nat.lt_succ_iff.symm
  have size : c.utf8Size = if c.val ≤ 0x7F then 1 else if c.val ≤ 0x7FF then 2
      else if c.val ≤ 0xFFFF then 3 else 4 := rfl
  rw [size]
  simp only [one, two, three, encodeChar, apply_ite List.length, List.length_cons, List.length_nil]

/-- The first byte of a character that is no digit has no value. -/
theorem head_of_not_isDigit (other : ¬ IsDigit c) :
    ∃ b rest, encodeChar c = b :: rest ∧ value? b = none := by
  have valid := c.valid
  have small : c.toNat < 0x110000 := by
    simp only [Char.toNat]
    rcases valid with low | high <;> omega
  unfold encodeChar
  dsimp only
  split
  · rename_i ascii
    refine ⟨_, _, rfl, Option.eq_none_iff_forall_ne_some.2 fun n found => ?_⟩
    have stands := standsFor_of_value? c.toNat ascii n found
    rw [Char.ofNat_toNat] at stands
    exact other ⟨n, stands⟩
  · -- a character of several bytes begins with one that is above all digits
    split
    · refine ⟨_, _, rfl, value?_of_le ?_⟩
      rw [toNat_ofNat_of_lt (by omega)]
      omega
    · split
      · refine ⟨_, _, rfl, value?_of_le ?_⟩
        rw [toNat_ofNat_of_lt (by omega)]
        omega
      · refine ⟨_, _, rfl, value?_of_le ?_⟩
        rw [toNat_ofNat_of_lt (by omega)]
        omega

end Characters

section Texts

variable {text front rest : List Char} {c : Char} {bytes : Bytes}

theorem length_encode (text : List Char) : (Text.Utf8.encode text).length = byteLength text := by
  simp [Text.Utf8.encode, byteLength, List.length_flatMap, length_encodeChar]

/-- Digits take one byte each. -/
theorem byteLength_digits (digits : ∀ c ∈ text, IsDigit c) : byteLength text = text.length := by
  induction text with
  | nil => rfl
  | cons c rest ih =>
    simp only [List.mem_cons, forall_eq_or_imp] at digits
    obtain ⟨⟨n, stands⟩, later⟩ := digits
    have one : c.utf8Size = 1 := by rw [← length_encodeChar, stands.encodeChar_eq]; rfl
    have below := ih later
    simp only [byteLength, List.map_cons, List.sum_cons, List.length_cons] at below ⊢
    omega

theorem Spells.length (spells : Spells text bytes) : text.length = 2 * bytes.length := by
  induction spells with
  | nil => rfl
  | cons _ _ _ ih =>
    simp only [List.length_cons, ih]
    omega

theorem Spells.digits (spells : Spells text bytes) : ∀ c ∈ text, IsDigit c := by
  induction spells with
  | nil => simp
  | cons above below _ ih =>
    simp only [List.mem_cons, forall_eq_or_imp]
    exact ⟨⟨_, above⟩, ⟨_, below⟩, ih⟩

/-- Digits whose number is even spell some bytes. -/
theorem spells_of_digits : ∀ {text : List Char}, (∀ c ∈ text, IsDigit c) → text.length % 2 = 0 →
    ∃ bytes, Spells text bytes
  | [], _, _ => ⟨[], .nil⟩
  | [_], _, even => nomatch even
  | high :: low :: rest, digits, even => by
    simp only [List.mem_cons, forall_eq_or_imp] at digits
    obtain ⟨⟨h, above⟩, ⟨l, below⟩, later⟩ := digits
    simp only [List.length_cons] at even
    obtain ⟨bytes, spells⟩ := spells_of_digits later (by omega)
    have := above.lt
    have := below.lt
    have number := toNat_ofNat_of_lt (show 16 * h + l < 256 by omega)
    refine ⟨UInt8.ofNat (16 * h + l) :: bytes, .cons ?_ ?_ spells⟩
    · rwa [number, show (16 * h + l) / 16 = h by omega]
    · rwa [number, show (16 * h + l) % 16 = l by omega]

/-- Some bytes are spelled by the digits that are written for them. -/
theorem spells_encode (bytes : Bytes) : Spells (Hex.encode bytes) bytes := by
  induction bytes with
  | nil => exact .nil
  | cons b rest ih =>
    have := b.toNat_lt
    exact .cons (standsFor_digit _ (by omega)) (standsFor_digit _ (by omega)) ih

/-- In lower case, the digits of some bytes are those that are written for them. -/
theorem Spells.toLower (spells : Spells text bytes) : text.map Char.toLower = Hex.encode bytes := by
  induction spells with
  | nil => rfl
  | cons above below _ ih =>
    simp only [List.map_cons, above.toLower, below.toLower, ih]
    rfl

theorem decodePairs_of_spells (spells : Spells text bytes) (position : Nat) :
    decodePairs position (Text.Utf8.encode text) = .ok bytes := by
  induction spells generalizing position with
  | nil => rfl
  | @cons high low digits b bytes above below _ ih =>
    have split : Text.Utf8.encode (high :: low :: digits) =
        UInt8.ofNat high.toNat :: UInt8.ofNat low.toNat :: Text.Utf8.encode digits := by
      simp [Text.Utf8.encode, above.encodeChar_eq, below.encodeChar_eq]
    have number : 16 * (b.toNat / 16) + b.toNat % 16 = b.toNat := by omega
    rw [split, decodePairs, above.value?_eq, below.value?_eq]
    simp [ih, Except.map, number]

/-- Digits are read as the bytes that they spell. -/
theorem decode_of_spells (spells : Spells text bytes) : decode (Text.Utf8.encode text) = .ok bytes := by
  have even : (Text.Utf8.encode text).length % 2 ≠ 1 := by
    rw [length_encode, byteLength_digits spells.digits, spells.length]
    omega
  rw [decode, if_neg even, decodePairs_of_spells spells]

theorem decode_odd (odd : byteLength text % 2 = 1) :
    decode (Text.Utf8.encode text) = .error .oddLength := by
  rw [decode, length_encode, if_pos odd]

/-- The first byte that has no value is named. -/
theorem decodePairs_bad {b : UInt8} {rest : Bytes} (bad : value? b = none) :
    ∀ {front : Bytes} (position : Nat), (∀ x ∈ front, value? x ≠ none) →
      (front ++ b :: rest).length % 2 = 0 →
      decodePairs position (front ++ b :: rest) = .error (.badDigit b (position + front.length))
  | [], position, _, even => by
    cases rest with
    | nil => simp at even
    | cons low rest => simp [decodePairs, bad]
  | [x], position, valued, _ => by
    obtain ⟨h, high⟩ := Option.ne_none_iff_exists'.1 (valued x (by simp))
    simp [decodePairs, high, bad]
  | x :: y :: front, position, valued, even => by
    simp only [List.mem_cons, forall_eq_or_imp] at valued
    obtain ⟨first, second, later⟩ := valued
    obtain ⟨h, high⟩ := Option.ne_none_iff_exists'.1 first
    obtain ⟨l, low⟩ := Option.ne_none_iff_exists'.1 second
    have shorter : (front ++ b :: rest).length % 2 = 0 := by
      simp only [List.cons_append, List.length_cons] at even
      omega
    have ih := decodePairs_bad bad (position + 2) later shorter
    simp only [List.cons_append, decodePairs, high, low, ih, Except.map, List.length_cons]
    congr 2
    omega

/-- A text of an even number of bytes is refused for its first character that is no digit, by the first
byte of that character. -/
theorem decode_bad (digits : ∀ x ∈ front, IsDigit x) (other : ¬ IsDigit c)
    (even : byteLength (front ++ c :: rest) % 2 = 0) :
    ∃ b, (encodeChar c).head? = some b ∧
      decode (Text.Utf8.encode (front ++ c :: rest)) = .error (.badDigit b front.length) := by
  obtain ⟨b, tail, first, bad⟩ := head_of_not_isDigit other
  have split : Text.Utf8.encode (front ++ c :: rest) =
      Text.Utf8.encode front ++ b :: (tail ++ Text.Utf8.encode rest) := by
    simp [Text.Utf8.encode, first]
  have valued : ∀ x ∈ Text.Utf8.encode front, value? x ≠ none := by
    intro x there
    obtain ⟨c, inside, there⟩ := List.mem_flatMap.1 there
    obtain ⟨n, stands⟩ := digits c inside
    rw [stands.encodeChar_eq, List.mem_singleton] at there
    simp [there, stands.value?_eq]
  rw [← length_encode] at even
  refine ⟨b, by rw [first]; rfl, ?_⟩
  rw [decode, if_neg (by omega)]
  rw [split] at even ⊢
  rw [decodePairs_bad bad 0 valued even, length_encode, byteLength_digits digits, Nat.zero_add]

/-- A text is all digits, or has a first character that is none. -/
theorem digits_or_first (text : List Char) : (∀ c ∈ text, IsDigit c) ∨
    ∃ front c rest, text = front ++ c :: rest ∧ (∀ x ∈ front, IsDigit x) ∧ ¬ IsDigit c := by
  cases found : text.find? fun c => ¬ IsDigit c with
  | none =>
    left
    simpa using List.find?_eq_none.1 found
  | some c =>
    right
    obtain ⟨other, front, rest, split, before⟩ := List.find?_eq_some_iff_append.1 found
    exact ⟨front, c, rest, split, by simpa using before, by simpa using other⟩

/-- A text is refused, or spells some bytes. -/
theorem fault_or_spells (text : List Char) :
    (∃ fault, decode (Text.Utf8.encode text) = .error fault) ∨ ∃ bytes, Spells text bytes := by
  rcases Nat.mod_two_eq_zero_or_one (byteLength text) with even | odd
  · rcases digits_or_first text with digits | ⟨front, c, rest, rfl, before, other⟩
    · rw [byteLength_digits digits] at even
      exact .inr (spells_of_digits digits even)
    · obtain ⟨b, -, failed⟩ := decode_bad before other even
      exact .inl ⟨_, failed⟩
  · exact .inl ⟨_, decode_odd odd⟩

end Texts

end Hex

namespace Fixed

open Hex (IsDigit Spells byteLength)

/-- What there is of a text without the mark `0x` or `0X` that it may begin with. -/
inductive Unmarked : List Char → List Char → Prop where
  | lower (rest : List Char) : Unmarked ('0' :: 'x' :: rest) rest
  | upper (rest : List Char) : Unmarked ('0' :: 'X' :: rest) rest
  | bare (text : List Char)
    (plain : ∀ rest, text ≠ '0' :: 'x' :: rest ∧ text ≠ '0' :: 'X' :: rest) : Unmarked text text

section

variable {kind : FixedKind} {text : String} {chars digits : List Char} {bytes : Bytes}

theorem Unmarked.dropMark_eq (unmarked : Unmarked chars digits) : dropMark chars = digits := by
  cases unmarked with
  | lower | upper => rfl
  | bare _ plain =>
    unfold dropMark
    split
    · exact absurd rfl (plain _).1
    · exact absurd rfl (plain _).2
    · rfl

theorem unmarked_dropMark (chars : List Char) : Unmarked chars (dropMark chars) := by
  unfold dropMark
  split
  · exact .lower _
  · exact .upper _
  · rename_i lower upper
    exact .bare _ fun rest => ⟨lower rest, upper rest⟩

/-- Digits begin with no mark, so they may stand behind one or alone. -/
theorem unmarked_iff_of_spells (spells : Spells digits bytes) :
    Unmarked chars digits ↔
      chars = digits ∨ chars = '0' :: 'x' :: digits ∨ chars = '0' :: 'X' :: digits := by
  constructor
  · intro unmarked
    cases unmarked with
    | lower => exact .inr (.inl rfl)
    | upper => exact .inr (.inr rfl)
    | bare => exact .inl rfl
  · rintro (rfl | rfl | rfl)
    · refine .bare _ fun rest => ⟨?_, ?_⟩
      · rintro rfl
        exact absurd (spells.digits 'x' (by simp)) (by decide)
      · rintro rfl
        exact absurd (spells.digits 'X' (by simp)) (by decide)
    · exact .lower _
    · exact .upper _

theorem parse_of_fault {fault : Hex.Fault} (unmarked : Unmarked text.toList digits)
    (failed : Hex.decode (Text.Utf8.encode digits) = .error fault) :
    @parse kind text = .error (.invalidHex text fault) := by
  simp only [parse, unmarked.dropMark_eq, failed]

/-- Digits are read as the bytes that they spell, if these are as many as the kind has. -/
theorem parse_of_spells (unmarked : Unmarked text.toList digits) (spells : Spells digits bytes) :
    @parse kind text =
      if size_eq : bytes.length = kind.size then .ok ⟨bytes, size_eq⟩
      else .error (.invalidLength kind.size bytes.length) := by
  simp only [parse, unmarked.dropMark_eq, Hex.decode_of_spells spells, ofBytes?]
  by_cases size_eq : bytes.length = kind.size <;> simp [size_eq]

/-- Nothing is read but digits that spell the value. -/
theorem parse_eq_ok_iff {value : Fixed kind} :
    parse text = .ok value ↔ ∃ digits, Unmarked text.toList digits ∧ Spells digits value.bytes := by
  constructor
  · intro read
    have unmarked := unmarked_dropMark text.toList
    rcases Hex.fault_or_spells (dropMark text.toList) with ⟨fault, failed⟩ | ⟨bytes, spells⟩
    · rw [parse_of_fault unmarked failed] at read
      cases read
    · rw [parse_of_spells unmarked spells] at read
      split at read
      · cases read
        exact ⟨_, unmarked, spells⟩
      · cases read
  · rintro ⟨digits, unmarked, spells⟩
    rw [parse_of_spells unmarked spells, dif_pos value.size_eq]

theorem parse_eq_ok_iff_digits {value : Fixed kind} : parse text = .ok value ↔
    ∃ digits, (text.toList = digits ∨ text.toList = '0' :: 'x' :: digits ∨
      text.toList = '0' :: 'X' :: digits) ∧ Spells digits value.bytes := by
  rw [parse_eq_ok_iff]
  constructor
  · rintro ⟨digits, unmarked, spells⟩
    exact ⟨digits, (unmarked_iff_of_spells spells).1 unmarked, spells⟩
  · rintro ⟨digits, marked, spells⟩
    exact ⟨digits, (unmarked_iff_of_spells spells).2 marked, spells⟩

/-- What is written for a value is the mark and its digits in lower case. -/
theorem render_of_spells {value : Fixed kind} (spells : Spells digits value.bytes) :
    value.render = "0x" ++ String.ofList (digits.map Char.toLower) := by
  rw [spells.toLower, ← String.toList_inj]
  simp [render, chars]

end

/-- A text is read as a value exactly if it is two digits of either case for each byte of the value, alone
or behind one mark `0x` or `0X`. Of the other texts, by what there is behind the mark: one of an odd number
of bytes is refused for its length, else one with a character that is no digit for the first of these, by
the first byte of that character and the number of those before, and one of digits for the number of bytes
that it spells. What is written for a value is read as that value, and what is read as a value is written
with the mark `0x` and its digits in lower case. -/
theorem parse_spelled (kind : FixedKind) :
    (∀ (text : String) (value : Fixed kind), parse text = .ok value ↔
      ∃ digits, (text.toList = digits ∨ text.toList = '0' :: 'x' :: digits ∨
          text.toList = '0' :: 'X' :: digits) ∧
        digits.length = 2 * kind.size ∧ Spells digits value.bytes) ∧
    (∀ (text : String) (rest : List Char), Unmarked text.toList rest →
      (byteLength rest % 2 = 1 → @parse kind text = .error (.invalidHex text .oddLength)) ∧
      (byteLength rest % 2 = 0 → (∃ c ∈ rest, ¬ IsDigit c) →
        ∃ front c back b, rest = front ++ c :: back ∧ (∀ x ∈ front, IsDigit x) ∧ ¬ IsDigit c ∧
          (Text.Utf8.encodeChar c).head? = some b ∧
          @parse kind text = .error (.invalidHex text (.badDigit b front.length))) ∧
      (byteLength rest % 2 = 0 → (∀ c ∈ rest, IsDigit c) → rest.length ≠ 2 * kind.size →
        @parse kind text = .error (.invalidLength kind.size (rest.length / 2)))) ∧
    (∀ value : Fixed kind, parse value.render = .ok value) ∧
    ∀ (text : String) (rest : List Char) (value : Fixed kind), Unmarked text.toList rest →
      parse text = .ok value → value.render = "0x" ++ String.ofList (rest.map Char.toLower) := by
  refine ⟨fun text value => ?_, fun text rest unmarked => ⟨fun odd => ?_, fun even other => ?_,
    fun even digits short => ?_⟩, fun value => ?_, fun text rest value unmarked read => ?_⟩
  · rw [parse_eq_ok_iff_digits]
    constructor
    · rintro ⟨digits, marked, spells⟩
      refine ⟨digits, marked, ?_, spells⟩
      rw [spells.length, value.size_eq]
    · rintro ⟨digits, marked, -, spells⟩
      exact ⟨digits, marked, spells⟩
  · exact parse_of_fault unmarked (Hex.decode_odd odd)
  · obtain ⟨c, there, other⟩ := other
    rcases Hex.digits_or_first rest with digits | ⟨front, c, back, rfl, before, other⟩
    · exact absurd (digits c there) other
    · obtain ⟨b, first, failed⟩ := Hex.decode_bad before other even
      exact ⟨front, c, back, b, rfl, before, other, first, parse_of_fault unmarked failed⟩
  · rw [Hex.byteLength_digits digits] at even
    obtain ⟨bytes, spells⟩ := Hex.spells_of_digits digits even
    have long := spells.length
    have half : rest.length / 2 = bytes.length := by omega
    rw [parse_of_spells unmarked spells, dif_neg (by omega), half]
  · rw [parse_eq_ok_iff]
    have text : value.render.toList = '0' :: 'x' :: Hex.encode value.bytes := by simp [render, chars]
    exact ⟨_, text ▸ .lower _, Hex.spells_encode value.bytes⟩
  · obtain ⟨digits, same, spells⟩ := parse_eq_ok_iff.1 read
    rw [← unmarked.dropMark_eq, same.dropMark_eq]
    exact render_of_spells spells

/-- Only one mark is passed over. -/
example : @parse .address "0x0X12" = .error (.invalidHex "0x0X12" (.badDigit 0x58 1)) := by
  decide

end Fixed

end Registrar
