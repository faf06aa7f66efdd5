import Mathlib.Data.Finmap
import Mathlib.Data.Finset.Sort
import Registrar.Proofs.Item.Course

/-!
Catalogues. The items and the next nonces in one store are two tables that do not know of each other: one
from indices to items, one from accounts to records. `Catalogue.serve` says of two such tables what each
request of the books is answered, and `answers_agree` that the store answers the same, whatever was
requested before. Keys are what carries this: they tell indices and accounts apart, and the ones of items
lie in the order of their indices.
-/

namespace Registrar

namespace Bytes

theorem span_pos (width : Nat) : 0 < span width := by
  induction width with
  | zero => decide
  | succ width ih =>
    simp only [span]
    omega

theorem littleEndian_succ (width n : Nat) :
    littleEndian (width + 1) n = littleEndian width n ++ [UInt8.ofNat (n / span width % 256)] := by
  induction width generalizing n with
  | zero => simp [littleEndian, span]
  | succ width ih =>
    rw [littleEndian, ih, littleEndian, Nat.div_div_eq_div_mul, span]
    rfl

theorem bigEndian_succ (width n : Nat) :
    bigEndian (width + 1) n = UInt8.ofNat (n / span width % 256) :: bigEndian width n := by
  simp [bigEndian, littleEndian_succ]

/-- Written with the most significant digit first, a smaller number stands before a larger one. -/
theorem bigEndian_lt {width m n : Nat} (less : m % span width < n % span width) :
    bigEndian width m < bigEndian width n := by
  induction width with
  | zero => simp [span, Nat.mod_one] at less
  | succ width ih =>
    have digits : ∀ k, k % span (width + 1) = k % span width + span width * (k / span width % 256) := by
      intro k
      rw [span, Nat.mul_comm, Nat.mod_mul]
    have digit : ∀ k, (UInt8.ofNat (k / span width % 256)).toNat = k / span width % 256 := by
      intro k
      simp only [UInt8.toNat_ofNat']
      omega
    rw [digits, digits] at less
    rw [bigEndian_succ, bigEndian_succ, List.cons_lt_cons_iff, UInt8.lt_iff_toNat_lt, digit, digit]
    have rest := Nat.mod_lt n (span_pos width)
    rcases Nat.lt_trichotomy (m / span width % 256) (n / span width % 256) with below | same | above
    · exact .inl below
    · rw [same] at less ⊢
      exact .inr ⟨rfl, ih (by omega)⟩
    · have more := Nat.mul_le_mul_left (span width) above
      rw [Nat.mul_succ] at more
      omega

end Bytes

/-- The keys of items lie in the order of their indices, read as unsigned numbers. -/
theorem Items.key_lt {i j : Int64} (less : i.toUInt64 < j.toUInt64) : key i < key j := by
  refine List.append_left_lt (Bytes.bigEndian_lt ?_)
  have bound : ∀ n : UInt64, n.toNat % Bytes.span 8 = n.toNat := fun n =>
    Nat.mod_eq_of_lt (by simpa [Bytes.span] using n.toNat_lt)
  rw [bound, bound]
  exact UInt64.lt_iff_toNat_lt.1 less

theorem Int64.eq_of_toUInt64 {i j : Int64} (same : i.toUInt64 = j.toUInt64) : i = j := by
  have signed := congrArg UInt64.toInt64 same
  rwa [Int64.toInt64_toUInt64, Int64.toInt64_toUInt64] at signed

/-- An index is not after another, both read as unsigned numbers. -/
def Unsigned (i j : Int64) : Prop := i.toUInt64 ≤ j.toUInt64

namespace Unsigned

instance : DecidableRel Unsigned := fun i j => inferInstanceAs (Decidable (i.toUInt64 ≤ j.toUInt64))

instance : IsTrans Int64 Unsigned := ⟨fun _ _ _ => UInt64.le_trans⟩

instance : Std.Antisymm Unsigned := ⟨fun _ _ ij ji => Int64.eq_of_toUInt64 (UInt64.le_antisymm ij ji)⟩

instance : Std.Total Unsigned := ⟨fun i j => UInt64.le_total i.toUInt64 j.toUInt64⟩

end Unsigned

/-- The items and the next nonces, each in a table of their own. -/
structure Catalogue where
  items : Finmap fun _ : Int64 => Item
  nonces : Finmap fun _ : Address => Nonce.Record

namespace Catalogue

def empty : Catalogue := ⟨∅, ∅⟩

/-- A request of the books: one for items, or one for nonces. The texts of an item are shorter than their
lengths can say. -/
inductive Request where
  | insert (item : Item) (fits : item.Fits)
  | replace (item : Item) (fits : item.Fits)
  | get (index : Int64)
  | count
  | withStatus (status : Item.Status)
  | findNonce (account : Address)
  | saveNonce (record : Nonce.Record)

abbrev Request.Answer : Request → Type
  | .insert _ _ | .replace _ _ => Except QueueError Unit
  | .get _ => Except QueueError (Option Item)
  | .count => Except QueueError Nat
  | .withStatus _ => Except QueueError (List Item)
  | .findNonce _ => Except NonceError (Option Nonce.Record)
  | .saveNonce _ => Except NonceError Unit

/-- The items with a status, in the order of their indices as unsigned numbers. -/
def withStatus (catalogue : Catalogue) (status : Item.Status) : List Item :=
  ((catalogue.items.keys.sort Unsigned).filterMap catalogue.items.lookup).filter (·.status = status)

def withItem (catalogue : Catalogue) (item : Item) : Catalogue :=
  { catalogue with items := catalogue.items.insert item.index item }

def withNonce (catalogue : Catalogue) (record : Nonce.Record) : Catalogue :=
  { catalogue with nonces := catalogue.nonces.insert record.address record }

/-- What a request is answered by the two tables, and the tables after it. -/
def serve (catalogue : Catalogue) : (request : Request) → request.Answer × Catalogue
  | .insert item _ =>
    if item.index ∈ catalogue.items then (.error (.duplicateIndex item.index), catalogue)
    else (.ok (), catalogue.withItem item)
  | .replace item _ =>
    if item.index ∈ catalogue.items then (.ok (), catalogue.withItem item)
    else (.error (.itemNotFound item.index), catalogue)
  | .get index => (.ok (catalogue.items.lookup index), catalogue)
  | .count => (.ok catalogue.items.keys.card, catalogue)
  | .withStatus status => (.ok (catalogue.withStatus status), catalogue)
  | .findNonce account => (.ok (catalogue.nonces.lookup account), catalogue)
  | .saveNonce record => (.ok (), catalogue.withNonce record)

end Catalogue

namespace Store

/-- A store that does not fail. -/
def reply (store : Store) (request : Request) : request.Answer × Store :=
  (.ok (store.serve request).1, (store.serve request).2)

variable {ε α : Type}

/-- What is attempted on a store that does not fail. -/
def attempt (store : Store) (attempt : Attempt Access ε α) : Except ε α × Store :=
  attempt.run.runWith reply store

/-- What a request of the books is answered from a store, and the store after it. -/
def books (store : Store) : (request : Catalogue.Request) → request.Answer × Store
  | .insert item _ => store.attempt (Items.insert item)
  | .replace item _ => store.attempt (Items.replace item)
  | .get index => store.attempt (Items.get index)
  | .count => store.attempt Items.count
  | .withStatus status => store.attempt (Items.withStatus status)
  | .findNonce account => store.attempt (Nonce.find account)
  | .saveNonce record => store.attempt (Nonce.upsert record)

theorem attempt_insert (store : Store) (item : Item) :
    store.attempt (Items.insert item) =
      if store.contains (Items.key item.index) then (.error (.duplicateIndex item.index), store)
      else (.ok (), store.withItem item) := by
  have asks : (Items.insert item).run = .ask (.exists (Items.key item.index)) fun answer => _ := rfl
  unfold attempt
  rw [asks]
  simp only [Program.runWith, reply, serve]
  cases store.contains (Items.key item.index) <;> rfl

theorem attempt_replace (store : Store) (item : Item) :
    store.attempt (Items.replace item) =
      if store.contains (Items.key item.index) then (.ok (), store.withItem item)
      else (.error (.itemNotFound item.index), store) := by
  have asks : (Items.replace item).run = .ask (.exists (Items.key item.index)) fun answer => _ := rfl
  unfold attempt
  rw [asks]
  simp only [Program.runWith, reply, serve]
  cases store.contains (Items.key item.index) <;> rfl

theorem attempt_get (store : Store) (index : Int64) :
    store.attempt (Items.get index) =
      (match store.get? (Items.key index) with
        | none => .ok none
        | some record =>
          match Items.decode (Items.key index) record with
          | .ok item => .ok (some item)
          | .error error => .error (.store error), store) := by
  unfold attempt
  rw [Items.run_get]
  simp only [Program.runWith, reply, serve]
  cases store.get? (Items.key index) <;> rfl

theorem attempt_find (store : Store) (account : Address) :
    store.attempt (Nonce.find account) =
      (match store.get? (Nonce.key account) with
        | none => .ok none
        | some bytes =>
          match Nonce.Record.layout.decode bytes with
          | .ok record => .ok (some record)
          | .error fault =>
            .error (.store (.corrupted (String.ofList (Nonce.keyChars account)) fault.message)),
        store) := by
  have asks : (Nonce.find account).run = .ask (.get (Nonce.key account)) fun answer => _ := rfl
  unfold attempt
  rw [asks]
  simp only [Program.runWith, reply, serve]
  cases store.get? (Nonce.key account) with
  | none => rfl
  | some bytes =>
    have lifted : Except.mapError NonceError.store (.ok (some bytes)) = .ok (some bytes) := rfl
    simp only [Program.bind, ExceptT.bindCont, lifted]
    cases Nonce.Record.layout.decode bytes <;> rfl

end Store

namespace Catalogue

/-- A store and a catalogue have the same items and the same nonces, each under a key of its own, and the
store has no other keys of items. -/
structure Describes (catalogue : Catalogue) (store : Store) : Prop where
  item : ∀ index, store.get? (Items.key index) = (catalogue.items.lookup index).map Items.encode
  nonce : ∀ account, store.get? (Nonce.key account) =
    (catalogue.nonces.lookup account).map Nonce.Record.layout.write
  keys : ∀ k, store.contains k = true → Items.keyStart.isPrefixOf k = true →
    ∃ index, k = Items.key index
  own : ∀ index item, catalogue.items.lookup index = some item → item.index = index ∧ item.Fits

theorem describes_empty : empty.Describes .empty where
  item _ := rfl
  nonce _ := rfl
  keys _ there := by cases there
  own _ _ there := by cases there

namespace Describes

variable {catalogue : Catalogue} {store : Store} {item : Item} {status : Item.Status}

theorem contains (describes : catalogue.Describes store) (index : Int64) :
    store.contains (Items.key index) = true ↔ index ∈ catalogue.items := by
  rw [Store.contains, describes.item, Option.isSome_map, Finmap.lookup_isSome]

/-- The store holds exactly the items of the catalogue. -/
theorem holds (describes : catalogue.Describes store) :
    Items.Holds store item ↔ catalogue.items.lookup item.index = some item := by
  unfold Items.Holds
  rw [describes.item]
  constructor
  · rintro ⟨fits, held⟩
    obtain ⟨other, found, same⟩ := Option.map_eq_some_iff.1 held
    have read := Items.decode_encode (describes.own _ _ found).2
    rw [same, Items.decode_encode fits] at read
    cases read
    exact found
  · intro found
    rw [found]
    exact ⟨(describes.own _ _ found).2, rfl⟩

theorem tidy (describes : catalogue.Describes store) : Items.Tidy store := by
  intro k record there begins
  obtain ⟨index, rfl⟩ := describes.keys k (Store.contains_iff.2 ⟨record, there⟩) begins
  rw [describes.item] at there
  obtain ⟨item, found, rfl⟩ := Option.map_eq_some_iff.1 there
  obtain ⟨rfl, -⟩ := describes.own _ _ found
  exact ⟨item, describes.holds.2 found, rfl⟩

theorem withItem (describes : catalogue.Describes store) (fits : item.Fits) :
    (catalogue.withItem item).Describes (store.withItem item) where
  item index := by
    unfold Store.withItem Catalogue.withItem
    rw [Store.get?_put]
    by_cases same : index = item.index
    · subst same
      simp
    · rw [if_neg fun eq => same (Items.key_inj eq), describes.item, Finmap.lookup_insert_of_ne _ same]
  nonce account := by
    unfold Store.withItem Catalogue.withItem
    rw [Store.get?_put, if_neg (Ne.symm (Items.key_ne_nonce _ _)), describes.nonce]
  keys k there begins := by
    unfold Store.withItem at there
    rw [Store.contains_put, Bool.or_eq_true_iff, decide_eq_true_eq] at there
    rcases there with same | there
    · exact ⟨_, same⟩
    · exact describes.keys k there begins
  own index other found := by
    unfold Catalogue.withItem at found
    by_cases same : index = item.index
    · subst same
      rw [Finmap.lookup_insert] at found
      cases found
      exact ⟨rfl, fits⟩
    · rw [Finmap.lookup_insert_of_ne _ same] at found
      exact describes.own _ _ found

theorem withNonce (describes : catalogue.Describes store) (record : Nonce.Record) :
    (catalogue.withNonce record).Describes (store.withNonce record) where
  item index := by
    unfold Store.withNonce Catalogue.withNonce
    rw [Store.get?_put, if_neg (Items.key_ne_nonce _ _), describes.item]
  nonce account := by
    unfold Store.withNonce Catalogue.withNonce
    rw [Store.get?_put]
    by_cases same : account = record.address
    · subst same
      simp
    · rw [if_neg fun eq => same (Nonce.key_inj eq), describes.nonce, Finmap.lookup_insert_of_ne _ same]
  keys k there begins := by
    unfold Store.withNonce at there
    rw [Store.contains_put, Bool.or_eq_true_iff, decide_eq_true_eq] at there
    rcases there with rfl | there
    · rw [Items.not_keyStart_isPrefixOf_nonce] at begins
      cases begins
    · exact describes.keys k there begins
  own := describes.own

/-- The store has as many keys of items as the catalogue has indices. -/
theorem count (describes : catalogue.Describes store) :
    store.count Items.keyStart = catalogue.items.keys.card := by
  have nodup : (catalogue.items.keys.toList.map Items.key).Nodup :=
    (Finset.nodup_toList _).map fun i j => Items.key_inj
  rw [Store.count_eq_length, ← Finset.length_toList, ← List.length_map Items.key]
  refine ((List.perm_ext_iff_of_nodup (Store.nodup_keys_scan ..) nodup).2 fun k => ?_).length_eq
  rw [Store.mem_keys_scan, List.mem_map]
  constructor
  · rintro ⟨there, begins⟩
    obtain ⟨index, rfl⟩ := describes.keys k there begins
    refine ⟨index, ?_, rfl⟩
    rw [Finset.mem_toList, Finmap.mem_keys]
    exact (describes.contains index).1 there
  · rintro ⟨index, there, rfl⟩
    rw [Finset.mem_toList, Finmap.mem_keys] at there
    exact ⟨(describes.contains index).2 there, Items.keyStart_isPrefixOf_key index⟩

end Describes

/-- Every item of the catalogue lies under its own index. -/
def Own (catalogue : Catalogue) : Prop :=
  ∀ index item, catalogue.items.lookup index = some item → item.index = index

variable {catalogue : Catalogue} {status : Item.Status}

theorem mem_withStatus (own : catalogue.Own) {item : Item} :
    item ∈ catalogue.withStatus status ↔
      catalogue.items.lookup item.index = some item ∧ item.status = status := by
  unfold withStatus
  rw [List.mem_filter, List.mem_filterMap, decide_eq_true_eq]
  refine and_congr_left fun _ => ⟨?_, fun found => ⟨item.index, ?_, found⟩⟩
  · rintro ⟨index, -, found⟩
    rwa [own index item found]
  · rw [Finset.mem_sort, Finmap.mem_keys]
    exact Finmap.mem_of_lookup_eq_some found

theorem sorted_withStatus (own : catalogue.Own) (status : Item.Status) :
    (catalogue.withStatus status).Pairwise fun a b => a.index.toUInt64 < b.index.toUInt64 := by
  unfold withStatus
  refine List.Pairwise.filter _ ?_
  rw [List.pairwise_filterMap]
  have sorted := Finset.pairwise_sort catalogue.items.keys Unsigned
  have apart : (catalogue.items.keys.sort Unsigned).Pairwise (· ≠ ·) := Finset.sort_nodup _ _
  refine (sorted.and apart).imp fun ⟨before, other⟩ a found b found' => ?_
  rw [own _ a found, own _ b found']
  exact UInt64.lt_of_le_of_ne before fun same => other (Int64.eq_of_toUInt64 same)

/-- A search of the store finds the items of the catalogue in their order. -/
theorem Describes.bucket {store : Store} (describes : catalogue.Describes store) (status : Item.Status) :
    Items.bucket store status = catalogue.withStatus status := by
  have own : catalogue.Own := fun index item found => (describes.own index item found).1
  refine Items.eq_of_mem_bucket (Items.sorted_bucket describes.tidy status)
    ((sorted_withStatus own status).imp Items.key_lt) fun item => ?_
  rw [Items.mem_bucket describes.tidy, mem_withStatus own, describes.holds]

/-- Each request is answered alike, and leaves store and catalogue with the same items and nonces. -/
theorem Describes.serve {store : Store} (describes : catalogue.Describes store) (request : Request) :
    (store.books request).1 = (catalogue.serve request).1 ∧
      (catalogue.serve request).2.Describes (store.books request).2 := by
  cases request with
  | insert item fits =>
    have present := describes.contains item.index
    simp only [Store.books, Store.attempt_insert, Catalogue.serve, present]
    by_cases there : item.index ∈ catalogue.items
    · simpa [there] using describes
    · simpa [there] using describes.withItem fits
  | replace item fits =>
    have present := describes.contains item.index
    simp only [Store.books, Store.attempt_replace, Catalogue.serve, present]
    by_cases there : item.index ∈ catalogue.items
    · simpa [there] using describes.withItem fits
    · simpa [there] using describes
  | get index =>
    simp only [Store.books, Store.attempt_get, Catalogue.serve, describes.item]
    refine ⟨?_, describes⟩
    cases found : catalogue.items.lookup index with
    | none => rfl
    | some item => simp [Items.decode, Items.decode_encode (describes.own _ _ found).2]
  | count => exact ⟨congrArg Except.ok describes.count, describes⟩
  | withStatus status => exact ⟨congrArg Except.ok (describes.bucket status), describes⟩
  | findNonce account =>
    simp only [Store.books, Store.attempt_find, Catalogue.serve, describes.nonce]
    refine ⟨?_, describes⟩
    cases catalogue.nonces.lookup account with
    | none => rfl
    | some record => simp [Nonce.decode_record]
  | saveNonce record => exact ⟨rfl, describes.withNonce record⟩

/-- The answers to some requests, one after the other, and the state after them. -/
def answers {σ : Type} (serve : σ → (request : Request) → request.Answer × σ) :
    List Request → σ → List (Σ request : Request, request.Answer) × σ
  | [], state => ([], state)
  | request :: rest, state =>
    let (answer, state) := serve state request
    let (later, state) := answers serve rest state
    (⟨request, answer⟩ :: later, state)

theorem Describes.answers {store : Store} (describes : catalogue.Describes store) (requests : List Request) :
    (Catalogue.answers Store.books requests store).1 =
        (Catalogue.answers Catalogue.serve requests catalogue).1 ∧
      (Catalogue.answers Catalogue.serve requests catalogue).2.Describes
        (Catalogue.answers Store.books requests store).2 := by
  induction requests generalizing catalogue store with
  | nil => exact ⟨rfl, describes⟩
  | cons request rest ih =>
    obtain ⟨same, later⟩ := describes.serve request
    obtain ⟨same', last⟩ := ih later
    simp only [Catalogue.answers, same, same']
    exact ⟨trivial, last⟩

/-- The books over one store that was empty answer any requests as two tables do that know nothing of each
other: one of items under their indices, one of nonces under their accounts. What a search answers are the
items with the status, each once, in the order of their indices as unsigned numbers; so those that are not
negative ascend. -/
theorem answers_agree (requests : List Request) :
    let stored := Catalogue.answers Store.books requests Store.empty
    let tables := Catalogue.answers serve requests empty
    stored.1 = tables.1 ∧ tables.2.Describes stored.2 ∧
      ∀ status,
        ((tables.2.withStatus status).Pairwise fun a b => a.index.toUInt64 < b.index.toUInt64 ∧
          (0 ≤ a.index → 0 ≤ b.index → a.index < b.index)) ∧
        ∀ item, item ∈ tables.2.withStatus status ↔
          tables.2.items.lookup item.index = some item ∧ item.status = status := by
  intro stored tables
  obtain ⟨same, describes⟩ := describes_empty.answers requests
  have own : tables.2.Own := fun index item found => (describes.own index item found).1
  refine ⟨same, describes, fun status => ⟨?_, fun item => mem_withStatus own⟩⟩
  refine (sorted_withStatus own status).imp fun {a b} before => ⟨before, fun _ positive => ?_⟩
  rcases Int64.lt_or_le a.index b.index with less | more
  · exact less
  · exact absurd before (UInt64.not_lt.2 (Int64.toUInt64_le positive more))

end Catalogue

end Registrar
