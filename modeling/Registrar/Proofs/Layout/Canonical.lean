import Registrar.Proofs.Layout.RoundTrip

/-!
What is read was written. `encode_of_decodeFrom` says that text is read only from the bytes that are
written for it, and `yields_item` the same of an item, whose texts are then no longer than their
lengths can say. So a record from which an item can be decoded begins with that item's own encoding.
-/

namespace Registrar

namespace Text.Utf8

theorem toNat_charOfNat {n : Nat} (valid : n.isValidChar) : (Char.ofNat n).toNat = n := by
  unfold Char.ofNat
  rw [dif_pos valid]
  rfl

/-- What a byte announces, with the ranges that leave out overlong forms, surrogates and what is too
large. -/
theorem of_lead_follow {n count low high : Nat} (h : lead n = .follow count low high) :
    0x80 ≤ low ∧ high ≤ 0xBF ∧
      ((count = 1 ∧ 0xC2 ≤ n ∧ n ≤ 0xDF) ∨
        (count = 2 ∧ 0xE0 ≤ n ∧ n ≤ 0xEF ∧ (n = 0xE0 → 0xA0 ≤ low) ∧ (n = 0xED → high ≤ 0x9F)) ∨
        (count = 3 ∧ 0xF0 ≤ n ∧ n ≤ 0xF4 ∧ (n = 0xF0 → 0x90 ≤ low) ∧ (n = 0xF4 → high ≤ 0x8F))) := by
  unfold lead at h
  repeat' split at h
  all_goals cases h <;> omega

theorem of_lead_alone {n : Nat} (h : lead n = .alone) : n < 0x80 := by
  unfold lead at h
  split at h
  · assumption
  · repeat' split at h
    all_goals cases h

theorem byte_eq {b : UInt8} {n : Nat} (h : n = b.toNat) : UInt8.ofNat n = b := by
  rw [h, UInt8.ofNat_toNat]

theorem tailByte_eq {b : UInt8} {n : Nat} (tail : 0x80 ≤ b.toNat ∧ b.toNat ≤ 0xBF)
    (h : n % 64 = b.toNat % 64) : tailByte n = b :=
  byte_eq (by omega)

theorem encodeChar_alone {b : UInt8} (leads : lead b.toNat = .alone) :
    encodeChar (Char.ofNat b.toNat) = [b] := by
  have small := of_lead_alone leads
  have number := toNat_charOfNat (n := b.toNat) (.inl (by omega))
  unfold encodeChar
  rw [number]
  dsimp only
  rw [if_pos small, UInt8.ofNat_toNat]

theorem encodeChar_two {b b₁ : UInt8} {low high : Nat} (leads : lead b.toNat = .follow 1 low high)
    (tail : low ≤ b₁.toNat ∧ b₁.toNat ≤ high) :
    encodeChar (Char.ofNat (b.toNat % 32 * 64 + b₁.toNat % 64)) = [b, b₁] := by
  obtain ⟨above, below, ⟨_, range⟩ | ⟨count, _⟩ | ⟨count, _⟩⟩ := of_lead_follow leads
  · have number := toNat_charOfNat (n := b.toNat % 32 * 64 + b₁.toNat % 64) (.inl (by omega))
    unfold encodeChar
    rw [number]
    dsimp only
    rw [if_neg (by omega), if_pos (by omega), byte_eq (b := b) (by omega),
      tailByte_eq (b := b₁) (by omega) (by omega)]
  · cases count
  · cases count

theorem encodeChar_three {b b₁ b₂ : UInt8} {low high : Nat} (leads : lead b.toNat = .follow 2 low high)
    (tail : low ≤ b₁.toNat ∧ b₁.toNat ≤ high) (tail₂ : isTail b₂ = true) :
    encodeChar (Char.ofNat ((b.toNat % 16 * 64 + b₁.toNat % 64) * 64 + b₂.toNat % 64)) =
      [b, b₁, b₂] := by
  have tail₂ := of_decide_eq_true tail₂
  obtain ⟨above, below, ⟨count, _⟩ | ⟨_, range⟩ | ⟨count, _⟩⟩ := of_lead_follow leads
  · cases count
  · have valid : ((b.toNat % 16 * 64 + b₁.toNat % 64) * 64 + b₂.toNat % 64).isValidChar := by
      unfold Nat.isValidChar
      omega
    have number := toNat_charOfNat valid
    unfold encodeChar
    rw [number]
    dsimp only
    rw [if_neg (by omega), if_neg (by omega), if_pos (by omega), byte_eq (b := b) (by omega),
      tailByte_eq (b := b₁) (by omega) (by omega), tailByte_eq (b := b₂) (by omega) (by omega)]
  · cases count

theorem encodeChar_four {b b₁ b₂ b₃ : UInt8} {count low high : Nat}
    (leads : lead b.toNat = .follow count low high) (many : count ≠ 1 ∧ count ≠ 2)
    (tail : low ≤ b₁.toNat ∧ b₁.toNat ≤ high) (tail₂ : isTail b₂ = true) (tail₃ : isTail b₃ = true) :
    encodeChar (Char.ofNat (((b.toNat % 8 * 64 + b₁.toNat % 64) * 64 + b₂.toNat % 64) * 64
      + b₃.toNat % 64)) = [b, b₁, b₂, b₃] := by
  have tail₂ := of_decide_eq_true tail₂
  have tail₃ := of_decide_eq_true tail₃
  obtain ⟨above, below, ⟨count, _⟩ | ⟨count, range⟩ | ⟨_, range⟩⟩ := of_lead_follow leads
  · exact absurd count many.1
  · exact absurd count many.2
  · have valid : (((b.toNat % 8 * 64 + b₁.toNat % 64) * 64 + b₂.toNat % 64) * 64
        + b₃.toNat % 64).isValidChar := by
      unfold Nat.isValidChar
      omega
    have number := toNat_charOfNat valid
    unfold encodeChar
    rw [number]
    dsimp only
    rw [if_neg (by omega), if_neg (by omega), if_neg (by omega), byte_eq (b := b) (by omega),
      tailByte_eq (b := b₁) (by omega) (by omega), tailByte_eq (b := b₂) (by omega) (by omega),
      tailByte_eq (b := b₃) (by omega) (by omega)]

/-- A character in front of a text is written in front of it. -/
theorem encode_cons_of_map {c : Char} {front rest : Bytes} {read : Except Fault (List Char)}
    {text : List Char} (h : read.map (c :: ·) = .ok text) (char : encodeChar c = front)
    (later : ∀ {text}, read = .ok text → encode text = rest) : encode text = front ++ rest := by
  cases read with
  | error fault => cases h
  | ok tail =>
    cases h
    rw [← char, ← later rfl]
    rfl

/-- Text is read only from the bytes that are written for it. -/
theorem encode_of_decodeFrom {bytes : Bytes} {position : Nat} {text : List Char}
    (h : decodeFrom position bytes = .ok text) : encode text = bytes := by
  fun_induction decodeFrom position bytes generalizing text with
  | case1 => cases h; rfl
  | case3 position b rest leads ih => exact encode_cons_of_map h (encodeChar_alone leads) ih
  | case6 position b low high b₁ rest tail leads ih =>
    exact encode_cons_of_map h (encodeChar_two leads (Decidable.not_not.1 tail)) ih
  | case9 position b low high b₁ tail b₂ rest tail₂ leads _ ih =>
    exact encode_cons_of_map h
      (encodeChar_three leads (Decidable.not_not.1 tail) (Decidable.not_not.1 tail₂)) ih
  | case12 position b count low high leads b₁ tail one b₂ tail₂ two b₃ rest tail₃ ih =>
    exact encode_cons_of_map h (encodeChar_four leads ⟨one, two⟩ (Decidable.not_not.1 tail)
      (Decidable.not_not.1 tail₂) (Decidable.not_not.1 tail₃)) ih
  | _ => cases h

end Text.Utf8

theorem Text.bytes_of_ofBytes {content : Bytes} {s : String} (h : ofBytes content = .ok s) :
    bytes s = content := by
  unfold ofBytes Utf8.decode at h
  cases read : Utf8.decodeFrom 0 content with
  | error fault =>
    rw [read] at h
    cases h
  | ok text =>
    rw [read] at h
    cases h
    unfold bytes
    rw [String.toList_ofList]
    exact Utf8.encode_of_decodeFrom read

namespace Layout

variable {α β : Type} {fits : α → Prop}

/-- Whatever is read fits, and was written as the layout writes it. -/
def Yields (layout : Layout α) (fits : α → Prop) : Prop :=
  ∀ bytes value rest, layout.read bytes = .ok (value, rest) →
    fits value ∧ bytes = layout.write value ++ rest

theorem Yields.pair {first : Layout α} {second : Layout β} {fits' : β → Prop}
    (ya : first.Yields fits) (yb : second.Yields fits') :
    (first.pair second).Yields fun value => fits value.1 ∧ fits' value.2 := by
  intro bytes value rest h
  simp only [Layout.pair] at h
  split at h
  · cases h
  · rename_i a front ra
    split at h
    · cases h
    · rename_i b back rb
      cases h
      obtain ⟨fa, rfl⟩ := ya _ _ _ ra
      obtain ⟨fb, rfl⟩ := yb _ _ _ rb
      exact ⟨⟨fa, fb⟩, (List.append_assoc ..).symm⟩

theorem Yields.imap {layout : Layout α} {view : α → β} {back : β → α} (yields : layout.Yields fits)
    (same : ∀ value, fits value → back (view value) = value) :
    (layout.imap view back).Yields fun value => fits (back value) := by
  intro bytes value rest h
  simp only [Layout.imap] at h
  cases read : layout.read bytes with
  | error fault =>
    rw [read] at h
    cases h
  | ok found =>
    obtain ⟨a, left⟩ := found
    rw [read] at h
    cases h
    obtain ⟨fa, rfl⟩ := yields _ _ _ read
    simp only [same a fa, Layout.imap]
    exact ⟨fa, trivial⟩

theorem Yields.mono {layout : Layout α} {wider : α → Prop} (yields : layout.Yields fits)
    (widens : ∀ value, fits value → wider value) : layout.Yields wider := by
  intro bytes value rest h
  obtain ⟨fa, written⟩ := yields _ _ _ h
  exact ⟨widens value fa, written⟩

theorem of_takeExactly {size : Nat} {fault : Fault} {bytes front rest : Bytes}
    (h : takeExactly size fault bytes = .ok (front, rest)) :
    front.length = size ∧ bytes = front ++ rest := by
  unfold takeExactly at h
  split at h
  · cases h
  · rename_i enough
    cases h
    exact ⟨by rw [List.length_take]; omega, (List.take_append_drop size bytes).symm⟩

theorem yields_number (width : Nat) : (number width).Yields (· < Bytes.span width) := by
  intro bytes value rest h
  simp only [number] at h
  cases taken : takeExactly width .endOfWord bytes with
  | error fault =>
    rw [taken] at h
    cases h
  | ok found =>
    obtain ⟨front, left⟩ := found
    rw [taken] at h
    cases h
    obtain ⟨rfl, rfl⟩ := of_takeExactly taken
    refine ⟨Bytes.ofLittleEndian_lt front, ?_⟩
    simp only [number, Bytes.littleEndian_ofLittleEndian]

theorem yields_word : word.Yields fun _ => True :=
  ((yields_number 8).imap fun n small => by simpa [Bytes.span] using small).mono fun _ _ => trivial

theorem yields_signedWord : signedWord.Yields fun _ => True :=
  (yields_word.imap fun _ _ => UInt64.toUInt64_toInt64 _).mono fun _ _ => trivial

theorem yields_fixed (kind : FixedKind) : (fixed kind).Yields fun _ => True := by
  intro bytes value rest h
  simp only [fixed] at h
  split at h
  · cases h
  · cases h
    exact ⟨trivial, (List.take_append_drop kind.size bytes).symm⟩

theorem yields_text : text.Yields fun s => (Text.bytes s).length < 2 ^ 64 := by
  intro bytes value rest h
  simp only [text] at h
  split at h
  · cases h
  · rename_i length front read
    obtain ⟨small, rfl⟩ := yields_number 8 _ _ _ read
    split at h
    · cases h
    · rename_i content back taken
      obtain ⟨rfl, rfl⟩ := of_takeExactly taken
      split at h
      · cases h
      · rename_i s found
        cases h
        cases Text.bytes_of_ofBytes found
        refine ⟨by simpa [Bytes.span] using small, ?_⟩
        simp only [text, number, List.append_assoc]

theorem Yields.option {layout : Layout α} (yields : layout.Yields fits) :
    (option layout).Yields fun value => ∀ v, value = some v → fits v := by
  intro bytes value rest h
  rcases bytes with _ | ⟨mark, left⟩
  · cases h
  · simp only [Layout.option] at h
    split at h
    · rename_i zero
      cases h
      subst zero
      exact ⟨fun _ absent => (by cases absent), rfl⟩
    · split at h
      · rename_i one
        cases read : layout.read left with
        | error fault =>
          rw [read] at h
          cases h
        | ok found =>
          obtain ⟨v, back⟩ := found
          rw [read] at h
          cases h
          subst one
          obtain ⟨fv, rfl⟩ := yields _ _ _ read
          exact ⟨fun _ same => Option.some.inj same ▸ fv, rfl⟩
      · cases h

theorem yields_variant [DecidableEq α] {all : List α} (distinct : all.Nodup) :
    (variant all).Yields (· ∈ all) := by
  intro bytes value rest h
  simp only [variant] at h
  split at h
  · cases h
  · rename_i n left read
    obtain ⟨_, rfl⟩ := yields_number 4 _ _ _ read
    split at h
    · rename_i member there
      cases h
      refine ⟨List.mem_of_getElem? there, ?_⟩
      obtain ⟨small, rfl⟩ := List.getElem?_eq_some_iff.1 there
      simp only [variant, number, distinct.idxOf_getElem]
    · cases h

end Layout

namespace Item

theorem yields_kind : Kind.layout.Yields (· ∈ Kind.all) := Layout.yields_variant (by decide)

theorem yields_status : Status.layout.Yields (· ∈ Status.all) := Layout.yields_variant (by decide)

theorem yields_sent : Sent.layout.Yields fun _ => True :=
  (((Layout.yields_fixed _).option.pair Layout.yields_word.option).imap fun _ _ => rfl).mono
    fun _ _ => trivial

/-- Whatever is read as an item fits, and was written for it. -/
theorem yields_item : layout.Yields Fits := by
  have fields := Layout.yields_signedWord.pair <| yields_kind.pair <| Layout.yields_text.pair <|
    Layout.yields_text.pair <| Layout.yields_text.pair <| Layout.yields_text.pair <|
    Layout.yields_word.pair <| (Layout.yields_fixed .secret).pair <| yields_status.pair <|
    yields_sent.pair <| yields_sent.pair <| yields_sent.pair <|
    Layout.yields_word.pair Layout.yields_word
  refine (fields.imap fun value _ => toFields_ofFields value).mono fun item read => ?_
  obtain ⟨_, _, name, any, eth, space, _⟩ := read
  simp only [Fits, List.mem_cons, List.not_mem_nil, or_false, forall_eq_or_imp, forall_eq]
  exact ⟨name, any, eth, space⟩

theorem fits_of_decode {record : Bytes} {item : Item} (h : layout.decode record = .ok item) :
    item.Fits := by
  unfold Layout.decode at h
  cases read : layout.read record with
  | error fault =>
    rw [read] at h
    cases h
  | ok found =>
    rw [read] at h
    cases h
    exact (yields_item _ _ _ read).1

end Item

end Registrar
