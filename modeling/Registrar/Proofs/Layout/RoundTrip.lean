import Mathlib.Algebra.Order.Ring.Nat
import Registrar.Items

/-!
What is written is read back. Each layout reads the bytes that it writes for a value as that value,
whatever follows them, and so an item and the record of a nonce survive being stored. Keys of items
differ with the indices, those of nonces with the accounts, and no key of a nonce is one of an item.
-/

namespace Registrar

namespace Text.Utf8

theorem toNat_ofNat_of_lt {n : Nat} (h : n < 256) : (UInt8.ofNat n).toNat = n := by
  simp only [UInt8.toNat_ofNat']; omega

theorem toNat_tailByte (n : Nat) : (tailByte n).toNat = 0x80 + n % 64 :=
  toNat_ofNat_of_lt (by omega)

theorem lead_two {n : Nat} (low : 0x80 ≤ n) (high : n < 0x800) :
    lead (0xC0 + n / 64) = .follow 1 0x80 0xBF := by
  unfold lead
  rw [if_neg (by omega), if_pos (by omega)]

theorem lead_three {n : Nat} (low : 0x800 ≤ n) (high : n < 0x10000)
    (valid : n < 0xD800 ∨ 0xDFFF < n) :
    ∃ first last, lead (0xE0 + n / 4096) = .follow 2 first last ∧
      first ≤ 0x80 + n / 64 % 64 ∧ 0x80 + n / 64 % 64 ≤ last := by
  unfold lead
  rw [if_neg (by omega), if_neg (by omega)]
  split
  · exact ⟨_, _, rfl, by omega, by omega⟩
  · split
    · exact ⟨_, _, rfl, by omega, by omega⟩
    · rw [if_pos (by omega)]
      exact ⟨_, _, rfl, by omega, by omega⟩

theorem lead_four {n : Nat} (low : 0x10000 ≤ n) (high : n < 0x110000) :
    ∃ first last, lead (0xF0 + n / 262144) = .follow 3 first last ∧
      first ≤ 0x80 + n / 4096 % 64 ∧ 0x80 + n / 4096 % 64 ≤ last := by
  unfold lead
  rw [if_neg (by omega), if_neg (by omega), if_neg (by omega), if_neg (by omega),
    if_neg (by omega)]
  split
  · exact ⟨_, _, rfl, by omega, by omega⟩
  · split
    · exact ⟨_, _, rfl, by omega, by omega⟩
    · rw [if_pos (by omega)]
      exact ⟨_, _, rfl, by omega, by omega⟩

theorem isTail_tailByte (n : Nat) : isTail (tailByte n) = true := by
  simp only [isTail, toNat_tailByte, decide_eq_true_eq]; omega

/-- What was written for a character is read as that character. -/
theorem decodeFrom_encodeChar (c : Char) (position : Nat) (rest : Bytes) :
    ∃ next, decodeFrom position (encodeChar c ++ rest) = (decodeFrom next rest).map (c :: ·) := by
  have valid : c.toNat < 0xD800 ∨ (0xDFFF < c.toNat ∧ c.toNat < 0x110000) := c.valid
  have back : Char.ofNat c.toNat = c := Char.ofNat_toNat c
  unfold encodeChar
  dsimp only
  split
  · rename_i one
    refine ⟨position + 1, ?_⟩
    have byte := toNat_ofNat_of_lt (show c.toNat < 256 by omega)
    have alone : lead c.toNat = .alone := by unfold lead; rw [if_pos one]
    simp only [List.cons_append, List.nil_append, decodeFrom, byte, alone, back]
  · split
    · rename_i one two
      refine ⟨position + 2, ?_⟩
      have byte := toNat_ofNat_of_lt (show 0xC0 + c.toNat / 64 < 256 by omega)
      have number : (0xC0 + c.toNat / 64) % 32 * 64 + (0x80 + c.toNat % 64) % 64 = c.toNat := by
        omega
      simp only [List.cons_append, List.nil_append, decodeFrom, byte,
        lead_two (Nat.not_lt.1 one) two, toNat_tailByte, number, back]
      rw [if_neg (by omega), if_pos trivial]
    · split
      · rename_i two three
        obtain ⟨first, last, leads, above, below⟩ :=
          lead_three (Nat.not_lt.1 two) three (by omega)
        refine ⟨position + 3, ?_⟩
        have byte := toNat_ofNat_of_lt (show 0xE0 + c.toNat / 4096 < 256 by omega)
        have number : ((0xE0 + c.toNat / 4096) % 16 * 64 + (0x80 + c.toNat / 64 % 64) % 64) * 64
            + (0x80 + c.toNat % 64) % 64 = c.toNat := by omega
        simp only [List.cons_append, List.nil_append, decodeFrom, byte, leads, toNat_tailByte,
          number, back, isTail_tailByte]
        rw [if_neg (by omega), if_neg (by decide)]
        simp
      · rename_i two three
        obtain ⟨first, last, leads, above, below⟩ :=
          lead_four (Nat.not_lt.1 three) (by omega)
        refine ⟨position + 4, ?_⟩
        have byte := toNat_ofNat_of_lt (show 0xF0 + c.toNat / 262144 < 256 by omega)
        have number : (((0xF0 + c.toNat / 262144) % 8 * 64 + (0x80 + c.toNat / 4096 % 64) % 64) * 64
            + (0x80 + c.toNat / 64 % 64) % 64) * 64 + (0x80 + c.toNat % 64) % 64 = c.toNat := by
          omega
        simp only [List.cons_append, List.nil_append, decodeFrom, byte, leads, toNat_tailByte,
          number, back, isTail_tailByte]
        rw [if_neg (by omega), if_neg (by decide)]
        simp

theorem decodeFrom_encode (text : List Char) (position : Nat) :
    decodeFrom position (encode text) = .ok text := by
  induction text generalizing position with
  | nil => rfl
  | cons c rest ih =>
    obtain ⟨next, read⟩ := decodeFrom_encodeChar c position (encode rest)
    have split : encode (c :: rest) = encodeChar c ++ encode rest := by simp [encode]
    rw [split, read, ih next]
    rfl

theorem encode_inj {a b : List Char} (h : encode a = encode b) : a = b := by
  have read := decodeFrom_encode a 0
  rw [h, decodeFrom_encode] at read
  exact (Except.ok.inj read).symm

end Text.Utf8

namespace Hex

theorem digit_inj : ∀ m < 16, ∀ n < 16, digit m = digit n → m = n := by decide

theorem encode_inj {a b : Bytes} (h : encode a = encode b) : a = b := by
  induction a generalizing b with
  | nil =>
    cases b with
    | nil => rfl
    | cons => cases h
  | cons x xs ih =>
    cases b with
    | nil => cases h
    | cons y ys =>
      obtain ⟨high, rest⟩ := List.cons.inj (show digit _ :: digit _ :: encode xs = _ from h)
      obtain ⟨low, rest⟩ := List.cons.inj rest
      have above := digit_inj _ (by have := x.toNat_lt; omega) _ (by have := y.toNat_lt; omega) high
      have below := digit_inj _ (Nat.mod_lt _ (by decide)) _ (Nat.mod_lt _ (by decide)) low
      have same : x = y := UInt8.toNat_inj.1 (by omega)
      rw [same, ih rest]

end Hex

theorem Fixed.chars_inj {kind : FixedKind} {a b : Fixed kind} (h : a.chars = b.chars) : a = b :=
  Fixed.ext (Hex.encode_inj (List.cons.inj (List.cons.inj h).2).2)

theorem Text.ofBytes_bytes (s : String) : ofBytes (bytes s) = .ok s := by
  simp [ofBytes, bytes, Utf8.decode, Utf8.decodeFrom_encode, Except.map]

namespace Layout

variable {α β : Type}

/-- What the layout writes for a value is read back as that value, whatever follows. -/
def Reads (layout : Layout α) (value : α) : Prop :=
  ∀ rest, layout.read (layout.write value ++ rest) = .ok (value, rest)

theorem decode_write {layout : Layout α} {value : α} (reads : layout.Reads value) :
    layout.decode (layout.write value) = .ok value := by
  have whole := reads []
  rw [List.append_nil] at whole
  simp [decode, whole, Except.map]

theorem Reads.pair {first : Layout α} {second : Layout β} {a : α} {b : β}
    (ra : first.Reads a) (rb : second.Reads b) : (first.pair second).Reads (a, b) := by
  intro rest
  simp only [Layout.pair, List.append_assoc, ra (second.write b ++ rest), rb rest]

theorem Reads.imap {layout : Layout α} {view : α → β} {back : β → α} {value : β}
    (reads : layout.Reads (back value)) (same : view (back value) = value) :
    (layout.imap view back).Reads value := by
  intro rest
  simp only [Layout.imap, reads rest, Except.map, same]

theorem takeExactly_append (front rest : Bytes) (fault : Fault) :
    takeExactly front.length fault (front ++ rest) = .ok (front, rest) := by
  simp [takeExactly]

theorem reads_number {width n : Nat} (small : n < Bytes.span width) : (number width).Reads n := by
  intro rest
  have taken := takeExactly_append (Bytes.littleEndian width n) rest .endOfWord
  rw [Bytes.length_littleEndian] at taken
  simp only [number, taken, Except.map, Bytes.ofLittleEndian_littleEndian, Nat.mod_eq_of_lt small]

theorem reads_word (w : UInt64) : word.Reads w :=
  Reads.imap (reads_number (by simpa [Bytes.span] using w.toNat_lt)) (UInt64.ofNat_toNat)

theorem reads_signedWord (w : Int64) : signedWord.Reads w :=
  Reads.imap (reads_word _) (Int64.toInt64_toUInt64 w)

theorem reads_fixed {kind : FixedKind} (value : Fixed kind) : (fixed kind).Reads value := by
  intro rest
  have enough : ¬ (value.bytes ++ rest).length < kind.size := by
    simp [value.size_eq]
  simp only [fixed, enough, dite_false, Except.ok.injEq, Prod.mk.injEq]
  constructor
  · apply Fixed.ext
    simp [← value.size_eq]
  · simp [← value.size_eq]

theorem reads_text {s : String} (small : (Text.bytes s).length < 2 ^ 64) : text.Reads s := by
  intro rest
  have length := @reads_number 8 (Text.bytes s).length
    (by simpa [Bytes.span] using small) (Text.bytes s ++ rest)
  simp only [number] at length
  simp only [text, List.append_assoc, number, length, takeExactly_append, Text.ofBytes_bytes]

theorem Reads.option {layout : Layout α} {value : Option α}
    (reads : ∀ v, value = some v → layout.Reads v) : (option layout).Reads value := by
  intro rest
  cases value with
  | none => simp [Layout.option]
  | some v => simp [Layout.option, reads v rfl rest, Except.map]

theorem reads_variant [DecidableEq α] {all : List α} {value : α} (listed : value ∈ all)
    (few : all.length < 2 ^ 32) : (variant all).Reads value := by
  intro rest
  have position : all.idxOf value < all.length := List.idxOf_lt_length_of_mem listed
  have read := @reads_number 4 (all.idxOf value)
    (by simp only [Bytes.span]; omega) rest
  simp only [number] at read
  simp [variant, number, read, List.getElem?_eq_getElem position]

end Layout

namespace Item

/-- Each text of the item is shorter than a length in bytes can say. -/
def Fits (item : Item) : Prop :=
  ∀ s ∈ [item.fullName, item.ownerAnyAddress, item.ownerEthAddress, item.spaceId],
    (Text.bytes s).length < 2 ^ 64

instance (item : Item) : Decidable item.Fits :=
  inferInstanceAs (Decidable (∀ s ∈ _, (Text.bytes s).length < 2 ^ 64))

theorem reads_kind (kind : Kind) : Kind.layout.Reads kind :=
  Layout.reads_variant (by cases kind <;> decide) (by decide)

theorem reads_status (status : Status) : Status.layout.Reads status :=
  Layout.reads_variant (by cases status <;> decide) (by decide)

theorem reads_sent (sent : Sent) : Sent.layout.Reads sent :=
  Layout.Reads.imap
    (Layout.Reads.pair (.option fun _ _ => Layout.reads_fixed _)
      (.option fun _ _ => Layout.reads_word _)) rfl

theorem reads_item {item : Item} (fits : item.Fits) : layout.Reads item := by
  simp only [Fits, List.mem_cons, List.not_mem_nil, or_false, forall_eq_or_imp, forall_eq] at fits
  obtain ⟨name, any, eth, space⟩ := fits
  refine Layout.Reads.imap ?_ (ofFields_toFields item)
  exact (Layout.reads_signedWord _).pair <| (reads_kind _).pair <| (Layout.reads_text name).pair <|
    (Layout.reads_text any).pair <| (Layout.reads_text eth).pair <|
    (Layout.reads_text space).pair <| (Layout.reads_word _).pair <| (Layout.reads_fixed _).pair <|
    (reads_status _).pair <| (reads_sent _).pair <| (reads_sent _).pair <| (reads_sent _).pair <|
    (Layout.reads_word _).pair (Layout.reads_word _)

theorem decode_write {item : Item} (fits : item.Fits) :
    layout.decode (layout.write item) = .ok item :=
  Layout.decode_write (reads_item fits)

end Item

namespace Nonce

theorem decode_record (record : Record) :
    Record.layout.decode (Record.layout.write record) = .ok record :=
  Layout.decode_write (.imap (.pair (Layout.reads_fixed _) (Layout.reads_word _)) rfl)

theorem key_inj {a b : Address} (h : key a = key b) : a = b :=
  Fixed.chars_inj (List.append_cancel_left (Text.Utf8.encode_inj h))

end Nonce

theorem Bytes.bigEndian_inj {width m n : Nat} (hm : m < span width) (hn : n < span width)
    (h : bigEndian width m = bigEndian width n) : m = n := by
  have digits : littleEndian width m = littleEndian width n := List.reverse_inj.1 h
  have number := congrArg ofLittleEndian digits
  rwa [ofLittleEndian_littleEndian, ofLittleEndian_littleEndian, Nat.mod_eq_of_lt hm,
    Nat.mod_eq_of_lt hn] at number

namespace Items

theorem key_inj {i j : Int64} (h : key i = key j) : i = j := by
  have digits := List.append_cancel_left h
  have number := Bytes.bigEndian_inj (by simpa [Bytes.span] using UInt64.toNat_lt _)
    (by simpa [Bytes.span] using UInt64.toNat_lt _) digits
  have word := congrArg UInt64.toInt64 (UInt64.toNat_inj.1 number)
  rwa [Int64.toInt64_toUInt64, Int64.toInt64_toUInt64] at word

theorem keyStart_isPrefixOf_key (index : Int64) : keyStart.isPrefixOf (key index) = true := by
  simp [key, List.isPrefixOf_iff_prefix]

theorem not_keyStart_isPrefixOf_nonce (account : Address) :
    keyStart.isPrefixOf (Nonce.key account) = false := by
  rfl

theorem key_ne_nonce (index : Int64) (account : Address) : key index ≠ Nonce.key account := by
  intro same
  have start := keyStart_isPrefixOf_key index
  rw [same, not_keyStart_isPrefixOf_nonce] at start
  cases start

end Items

end Registrar
