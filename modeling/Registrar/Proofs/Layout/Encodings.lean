import Mathlib.Data.Nat.Digits.Lemmas
import Registrar.Proofs.Layout.Canonical

/-!
Encodings that stand by themselves. The bytes that are written for an item, the record of a nonce, a
transaction or the options to sign one are read back as that value whatever follows them, and no
shorter part of them is read as anything:

* `Layout.Stops`: a layout reads no further than its value goes, so what is read stays when more
  bytes follow;
* `Amount.reads_amount`: an amount is read from its fewest digits;
* `Layout.Stops.delimits`: a layout that stops and reads back what it writes delimits its values;
* `AuthOptions.not_canonical`: options have more than one spelling;
* `encodings_delimited`: all four layouts delimit their values, and three have one spelling only.
-/

namespace Registrar

namespace Hex

theorem value?_digit : ∀ n < 16, value? (UInt8.ofNat (digit n).toNat) = some n := by decide

theorem not_isGap_digit : ∀ n < 16, Amount.isGap (UInt8.ofNat (digit n).toNat) = false := by decide

theorem encodeChar_digit : ∀ n < 16,
    Text.Utf8.encodeChar (digit n) = [UInt8.ofNat (digit n).toNat] := by decide

/-- The digits of a number to the base sixteen, the highest first. -/
def nibbles (n : Nat) : List Nat := if n = 0 then [0] else (Nat.digits 16 n).reverse

theorem digitsOf_eq (n : Nat) : digitsOf n = (Nat.digits 16 n).reverse.map digit := by
  induction n using digitsOf.induct with
  | case1 => simp [digitsOf]
  | case2 n some ih =>
    have step := Nat.digits_def' (show 1 < 16 by omega) (show 0 < n by omega)
    rw [digitsOf, if_neg some, ih, step]
    simp

theorem ofNat_eq (n : Nat) : ofNat n = (nibbles n).map digit := by
  unfold ofNat nibbles
  split
  · rfl
  · exact digitsOf_eq n

theorem lt_of_mem_nibbles {n d : Nat} (h : d ∈ nibbles n) : d < 16 := by
  unfold nibbles at h
  split at h
  · simp at h
    omega
  · rw [List.mem_reverse] at h
    exact Nat.digits_lt_base (by omega) h

theorem foldl_nibbles (n : Nat) : (nibbles n).foldl (fun n d => 16 * n + d) 0 = n := by
  unfold nibbles
  split
  · simp [*]
  · rw [List.foldl_reverse]
    have whole := Nat.ofDigits_digits 16 n
    rw [Nat.ofDigits_eq_foldr] at whole
    simpa [Nat.add_comm] using whole

theorem length_nibbles {n : Nat} (small : n < 2 ^ 256) :
    0 < (nibbles n).length ∧ (nibbles n).length ≤ 64 := by
  unfold nibbles
  split
  · simp
  · rename_i some
    rw [List.length_reverse]
    constructor
    · have := Nat.digits_ne_nil_iff_ne_zero (b := 16) |>.2 some
      exact List.length_pos_iff.2 this
    · have := Nat.digits_length_le_iff (b := 16) (k := 64) (by omega) n
      omega

end Hex

namespace Amount

theorem digitValues_digits (position : Nat) (digits : List Nat) (small : ∀ d ∈ digits, d < 16) :
    digitValues position (Text.Utf8.encode (digits.map Hex.digit)) = .ok digits := by
  induction digits generalizing position with
  | nil => rfl
  | cons d rest ih =>
    have below := small d (List.mem_cons_self ..)
    have split : Text.Utf8.encode ((d :: rest).map Hex.digit)
        = UInt8.ofNat (Hex.digit d).toNat :: Text.Utf8.encode (rest.map Hex.digit) := by
      simp [Text.Utf8.encode, Hex.encodeChar_digit d below]
    rw [split, digitValues, Hex.not_isGap_digit d below, Hex.value?_digit d below]
    simp [ih (position + 1) fun e there => small e (List.mem_cons_of_mem d there), Except.map]

theorem length_encode_digits (digits : List Nat) (small : ∀ d ∈ digits, d < 16) :
    (Text.Utf8.encode (digits.map Hex.digit)).length = digits.length := by
  induction digits with
  | nil => rfl
  | cons d rest ih =>
    have shorter := ih fun e there => small e (List.mem_cons_of_mem d there)
    simp only [Text.Utf8.encode] at shorter
    simp [Text.Utf8.encode, Hex.encodeChar_digit d (small d (List.mem_cons_self ..)), shorter]

/-- An amount is read from its fewest digits. -/
theorem parse_render (amount : Amount) : parse amount.render = .ok amount := by
  have small : ∀ d ∈ Hex.nibbles amount.toNat, d < 16 := fun _ => Hex.lt_of_mem_nibbles
  have length := length_encode_digits (Hex.nibbles amount.toNat) small
  obtain ⟨some, few⟩ := Hex.length_nibbles amount.isLt
  unfold parse render
  simp only [String.toList_ofList, Hex.ofNat_eq, length, digitValues_digits _ _ small]
  rw [if_neg (by omega)]
  simp [Except.map, ofDigits, Hex.foldl_nibbles, ← Nat.two_mul]

theorem length_render (amount : Amount) : (Text.bytes amount.render).length ≤ 66 := by
  have small : ∀ d ∈ Hex.nibbles amount.toNat, d < 16 := fun _ => Hex.lt_of_mem_nibbles
  have length := length_encode_digits (Hex.nibbles amount.toNat) small
  have few := (Hex.length_nibbles amount.isLt).2
  have mark : Text.bytes amount.render
      = Text.Utf8.encodeChar '0' ++ (Text.Utf8.encodeChar 'x'
        ++ Text.Utf8.encode ((Hex.nibbles amount.toNat).map Hex.digit)) := by
    simp [Text.bytes, render, Text.Utf8.encode, Hex.ofNat_eq]
  have zero : (Text.Utf8.encodeChar '0').length = 1 := by decide
  have ex : (Text.Utf8.encodeChar 'x').length = 1 := by decide
  rw [mark, List.length_append, List.length_append, zero, ex, length]
  omega

theorem reads_amount (amount : Amount) : layout.Reads amount := by
  intro rest
  have short := length_render amount
  have read := Layout.reads_text (s := amount.render) (by omega) rest
  simp [layout, read, parse_render, Except.map]

end Amount

theorem Nonce.reads_record (record : Record) : Record.layout.Reads record :=
  .imap (.pair (Layout.reads_fixed _) (Layout.reads_word _)) rfl

theorem TxHandle.reads_handle (tx : TxHandle) : layout.Reads tx :=
  .imap (.pair (Layout.reads_fixed _) (.pair (Layout.reads_fixed _) (Layout.reads_word _))) rfl

theorem AuthOptions.reads_options (auth : AuthOptions) : layout.Reads auth :=
  .imap (.pair (Layout.reads_fixed _) (.pair (Layout.reads_word _)
    (.pair (Layout.reads_word _) (Amount.reads_amount _)))) rfl

namespace Layout

variable {α β : Type}

/-- The layout reads no further than its value goes: more bytes behind it are left as they are. -/
def Stops (layout : Layout α) : Prop :=
  ∀ bytes value rest more, layout.read bytes = .ok (value, rest) →
    layout.read (bytes ++ more) = .ok (value, rest ++ more)

theorem Stops.pair {first : Layout α} {second : Layout β} (stops : first.Stops)
    (then_stops : second.Stops) : (first.pair second).Stops := by
  intro bytes value rest more h
  simp only [Layout.pair] at h ⊢
  split at h
  · cases h
  · rename_i a middle ra
    split at h
    · cases h
    · rename_i b back rb
      cases h
      simp only [stops _ _ _ more ra, then_stops _ _ _ more rb]

theorem Stops.imap {layout : Layout α} {view : α → β} {back : β → α} (stops : layout.Stops) :
    (layout.imap view back).Stops := by
  intro bytes value rest more h
  simp only [Layout.imap] at h ⊢
  cases read : layout.read bytes with
  | error fault =>
    rw [read] at h
    cases h
  | ok found =>
    obtain ⟨a, left⟩ := found
    rw [read] at h
    cases h
    simp [stops _ _ _ more read, Except.map]

theorem takeExactly_more {size : Nat} {fault : Fault} {bytes front rest : Bytes} (more : Bytes)
    (h : takeExactly size fault bytes = .ok (front, rest)) :
    takeExactly size fault (bytes ++ more) = .ok (front, rest ++ more) := by
  obtain ⟨rfl, rfl⟩ := of_takeExactly h
  rw [List.append_assoc]
  exact takeExactly_append front (rest ++ more) fault

theorem stops_number (width : Nat) : (number width).Stops := by
  intro bytes value rest more h
  simp only [number] at h ⊢
  cases taken : takeExactly width .endOfWord bytes with
  | error fault =>
    rw [taken] at h
    cases h
  | ok found =>
    obtain ⟨front, left⟩ := found
    rw [taken] at h
    cases h
    simp [takeExactly_more more taken, Except.map]

theorem stops_word : word.Stops := (stops_number 8).imap

theorem stops_signedWord : signedWord.Stops := stops_word.imap

theorem stops_fixed (kind : FixedKind) : (fixed kind).Stops := by
  intro bytes value rest more h
  simp only [fixed] at h ⊢
  split at h
  · cases h
  · rename_i enough
    have longer : ¬ (bytes ++ more).length < kind.size := by
      rw [List.length_append]
      omega
    cases h
    simp only [longer, dite_false, Except.ok.injEq, Prod.mk.injEq]
    constructor
    · apply Fixed.ext
      exact List.take_append_of_le_length (by omega)
    · exact List.drop_append_of_le_length (by omega)

theorem stops_text : text.Stops := by
  intro bytes value rest more h
  simp only [text] at h ⊢
  split at h
  · cases h
  · rename_i length middle read
    rw [stops_number 8 _ _ _ more read]
    split at h
    · cases h
    · rename_i content back taken
      simp only [takeExactly_more more taken]
      split at h
      · cases h
      · rename_i s found
        cases h
        rfl

theorem Stops.option {layout : Layout α} (stops : layout.Stops) : (option layout).Stops := by
  intro bytes value rest more h
  cases bytes with
  | nil => cases h
  | cons mark left =>
    simp only [Layout.option, List.cons_append] at h ⊢
    by_cases absent : mark = 0
    · rw [if_pos absent] at h ⊢
      cases h
      rfl
    · rw [if_neg absent] at h ⊢
      split at h
      · rename_i present
        rw [if_pos present]
        cases read : layout.read left with
        | error fault =>
          rw [read] at h
          cases h
        | ok found =>
          obtain ⟨v, back⟩ := found
          rw [read] at h
          cases h
          simp [stops _ _ _ more read, Except.map]
      · cases h

theorem stops_variant [DecidableEq α] (all : List α) : (variant all).Stops := by
  intro bytes value rest more h
  simp only [variant] at h ⊢
  split at h
  · cases h
  · rename_i n left read
    rw [stops_number 4 _ _ _ more read]
    split at h
    · rename_i member there
      cases h
      simp only [there]
    · cases h

theorem stops_amount : Amount.layout.Stops := by
  intro bytes value rest more h
  simp only [Amount.layout] at h ⊢
  split at h
  · cases h
  · rename_i s left read
    rw [stops_text _ _ _ more read]
    cases spelled : Amount.parse s with
    | error fault =>
      rw [spelled] at h
      cases h
    | ok amount =>
      rw [spelled] at h
      cases h
      simp [spelled, Except.map]

/-- The encodings of the values in `fits` stand by themselves: each is read back whatever follows
it, none begins another, and no shorter part of one is read as anything. -/
structure Delimits (layout : Layout α) (fits : α → Prop) : Prop where
  reads : ∀ value, fits value → ∀ more, layout.decode (layout.write value ++ more) = .ok value
  apart : ∀ a b, fits a → fits b → layout.write a <+: layout.write b → a = b
  whole : ∀ value, fits value → ∀ front, front <+: layout.write value →
    front ≠ layout.write value → ∃ fault, layout.decode front = .error fault

/-- Only what begins with the encoding of a value is read as that value. -/
def Canonical (layout : Layout α) : Prop :=
  ∀ bytes value, layout.decode bytes = .ok value → layout.write value <+: bytes

theorem decode_append {layout : Layout α} {value : α} (reads : layout.Reads value) (more : Bytes) :
    layout.decode (layout.write value ++ more) = .ok value := by
  simp [decode, reads more, Except.map]

theorem eq_of_decode {layout : Layout α} {bytes : Bytes} {a : α}
    (h : layout.decode bytes = .ok a) : ∃ rest, layout.read bytes = .ok (a, rest) := by
  unfold decode at h
  cases read : layout.read bytes with
  | error fault =>
    rw [read] at h
    cases h
  | ok found =>
    rw [read] at h
    cases h
    exact ⟨found.2, rfl⟩

theorem Stops.delimits {layout : Layout α} {fits : α → Prop} (stops : layout.Stops)
    (reads : ∀ value, fits value → layout.Reads value) : layout.Delimits fits where
  reads value fit more := decode_append (reads value fit) more
  apart a b fa fb begins := by
    obtain ⟨more, joined⟩ := begins
    have as_a := decode_append (reads a fa) more
    have as_b := decode_append (reads b fb) []
    rw [List.append_nil, ← joined, as_a] at as_b
    exact Except.ok.inj as_b
  whole value fit front begins proper := by
    cases found : layout.decode front with
    | error fault => exact ⟨fault, rfl⟩
    | ok other =>
      -- what the part is read as would leave nothing for the bytes behind it
      exfalso
      obtain ⟨more, joined⟩ := begins
      obtain ⟨rest, read⟩ := eq_of_decode found
      have all := reads value fit []
      rw [List.append_nil, ← joined, stops _ _ _ more read] at all
      have none_left := congrArg Prod.snd (Except.ok.inj all)
      have no_more := (List.append_eq_nil_iff.1 none_left).2
      rw [no_more, List.append_nil] at joined
      exact proper joined

theorem Yields.canonical {layout : Layout α} {fits : α → Prop} (yields : layout.Yields fits) :
    layout.Canonical := by
  intro bytes value h
  obtain ⟨rest, read⟩ := eq_of_decode h
  obtain ⟨_, written⟩ := yields _ _ _ read
  exact ⟨rest, written.symm⟩

end Layout

namespace Item

theorem stops_kind : Kind.layout.Stops := Layout.stops_variant _

theorem stops_status : Status.layout.Stops := Layout.stops_variant _

theorem stops_sent : Sent.layout.Stops :=
  ((Layout.stops_fixed _).option.pair Layout.stops_word.option).imap

theorem stops_item : layout.Stops :=
  Layout.Stops.imap <| Layout.stops_signedWord.pair <| stops_kind.pair <|
    Layout.stops_text.pair <| Layout.stops_text.pair <| Layout.stops_text.pair <|
    Layout.stops_text.pair <| Layout.stops_word.pair <| (Layout.stops_fixed .secret).pair <|
    stops_status.pair <| stops_sent.pair <| stops_sent.pair <| stops_sent.pair <|
    Layout.stops_word.pair Layout.stops_word

end Item

theorem Nonce.stops_record : Record.layout.Stops :=
  ((Layout.stops_fixed _).pair Layout.stops_word).imap

theorem Nonce.yields_record : Record.layout.Yields fun _ => True :=
  (((Layout.yields_fixed _).pair Layout.yields_word).imap fun _ _ => rfl).mono
    fun _ _ => trivial

theorem TxHandle.stops_handle : layout.Stops :=
  ((Layout.stops_fixed _).pair ((Layout.stops_fixed _).pair Layout.stops_word)).imap

theorem TxHandle.yields_handle : layout.Yields fun _ => True :=
  (((Layout.yields_fixed _).pair ((Layout.yields_fixed _).pair Layout.yields_word)).imap
    fun _ _ => rfl).mono fun _ _ => trivial

theorem AuthOptions.stops_options : layout.Stops :=
  ((Layout.stops_fixed _).pair (Layout.stops_word.pair
    (Layout.stops_word.pair Layout.stops_amount))).imap

/-- Options are also read from an amount that is spelled without its mark. -/
theorem AuthOptions.not_canonical : ¬ layout.Canonical := by
  intro canonical
  have bare : layout.decode (List.replicate 36 0 ++ [1, 0, 0, 0, 0, 0, 0, 0, 0x30])
      = .ok ⟨.zero, 0, 0, 0⟩ := by rfl
  have begins := canonical _ _ bare
  revert begins
  decide

/-- Items whose texts have a length that can be written, nonce records, transactions and options
stand by themselves in bytes. Items, nonce records and transactions are read from nothing but their
own encoding; an amount among options may be spelled in more than one way. -/
theorem encodings_delimited :
    Item.layout.Delimits Item.Fits ∧ Nonce.Record.layout.Delimits (fun _ => True) ∧
      TxHandle.layout.Delimits (fun _ => True) ∧ AuthOptions.layout.Delimits (fun _ => True) ∧
      Item.layout.Canonical ∧ Nonce.Record.layout.Canonical ∧ TxHandle.layout.Canonical := by
  have items := Item.stops_item.delimits fun _ => Item.reads_item
  have records := Nonce.stops_record.delimits fun record (_ : True) => Nonce.reads_record record
  have handles := TxHandle.stops_handle.delimits fun tx (_ : True) => TxHandle.reads_handle tx
  have options := AuthOptions.stops_options.delimits
    fun auth (_ : True) => AuthOptions.reads_options auth
  exact ⟨items, records, handles, options, Item.yields_item.canonical,
    Nonce.yields_record.canonical, TxHandle.yields_handle.canonical⟩

end Registrar
