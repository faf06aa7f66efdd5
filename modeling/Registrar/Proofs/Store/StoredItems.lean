import Registrar.Proofs.Layout.RoundTrip
import Registrar.Proofs.Store.Scan

/-!
Items in a store. A store is tidy when every record under a key of an item is that of an item with
the key's index; it stays so whatever is written for an item or for a nonce. A store is keyed when only
the records from which an item can be decoded have to lie so, and may have more at their end. In either
a search by status finds exactly the items with it, in the order of their keys.
-/

namespace Registrar

namespace Item

/-- The item as its request made it. -/
def origin (item : Item) : Item :=
  { item with
    status := .initial, commitTx := .nothing, registerTx := .nothing, renewTx := .nothing
    dateModified := item.dateCreated }

@[simp] theorem origin_record (item : Item) (tx : TxHandle) (phase : Phase) :
    (item.record tx phase).origin = item.origin := by
  cases phase <;> rfl

theorem origin_ofRequest (index : Int64) (secret : Secret) (now : UInt64) (request : ItemRequest) :
    (ofRequest index secret now request).origin = ofRequest index secret now request := by
  cases request <;> rfl

theorem index_eq_of_origin {a b : Item} (h : a.origin = b.origin) : a.index = b.index :=
  (congrArg Item.index h :)

theorem kind_eq_of_origin {a b : Item} (h : a.origin = b.origin) : a.kind = b.kind :=
  (congrArg Item.kind h :)

theorem fullName_eq_of_origin {a b : Item} (h : a.origin = b.origin) : a.fullName = b.fullName :=
  (congrArg Item.fullName h :)

theorem fits_iff_of_origin {a b : Item} (h : a.origin = b.origin) : a.Fits ↔ b.Fits := by
  have same : a.origin.Fits ↔ b.origin.Fits := by rw [h]
  exact same

end Item

/-- The store with an item in the place of the one with its index. -/
def Store.withItem (store : Store) (item : Item) : Store :=
  store.put (Items.key item.index) (Items.encode item)

/-- The store with the next nonce of an account. -/
def Store.withNonce (store : Store) (record : Nonce.Record) : Store :=
  store.put (Nonce.key record.address) (Nonce.Record.layout.write record)

namespace Items

/-- The store has exactly this item under its index. -/
def Holds (store : Store) (item : Item) : Prop :=
  item.Fits ∧ store.get? (key item.index) = some (encode item)

instance (store : Store) (item : Item) : Decidable (Holds store item) :=
  inferInstanceAs (Decidable (item.Fits ∧ store.get? (key item.index) = some (encode item)))

/-- Every record under a key of an item is that of an item with the key's index. -/
def Tidy (store : Store) : Prop :=
  ∀ k record, store.get? k = some record → keyStart.isPrefixOf k = true →
    ∃ item : Item, Holds store item ∧ k = key item.index

/-- The store has this item under its index, whatever follows it in its record. -/
def Has (store : Store) (item : Item) : Prop :=
  ∃ record, store.get? (key item.index) = some record ∧ Item.layout.decode record = .ok item

/-- Every record of an item lies under the key of that item's index. -/
def Keyed (store : Store) : Prop :=
  ∀ k record item, store.get? k = some record → keyStart.isPrefixOf k = true →
    Item.layout.decode record = .ok item → k = key item.index

/-- The items with a status, in the order of their keys. -/
def bucket (store : Store) (status : Item.Status) : List Item := select status (store.scan keyStart)

theorem decode_encode {item : Item} (fits : item.Fits) :
    Item.layout.decode (encode item) = .ok item :=
  Item.decode_write fits

theorem holds_inj {store : Store} {a b : Item} (ha : Holds store a) (hb : Holds store b)
    (same : a.index = b.index) : a = b := by
  have record : encode a = encode b := by
    have there := ha.2
    rw [same, hb.2] at there
    exact (Option.some.inj there).symm
  have read := decode_encode ha.1
  rw [record, decode_encode hb.1] at read
  exact (Except.ok.inj read).symm

theorem has_inj {store : Store} {a b : Item} (ha : Has store a) (hb : Has store b)
    (same : a.index = b.index) : a = b := by
  obtain ⟨record, there, decoded⟩ := ha
  obtain ⟨record', there', decoded'⟩ := hb
  rw [same, there'] at there
  cases there
  exact Except.ok.inj (decoded.symm.trans decoded')

theorem holds_withItem {store : Store} {item other : Item} (fits : item.Fits) :
    Holds (store.withItem item) other ↔
      other = item ∨ (other.index ≠ item.index ∧ Holds store other) := by
  unfold Holds Store.withItem
  rw [Store.get?_put]
  by_cases same : other.index = item.index
  · rw [same, if_pos rfl]
    constructor
    · rintro ⟨fits', record⟩
      have read := decode_encode fits'
      rw [← Option.some.inj record, decode_encode fits] at read
      exact .inl (Except.ok.inj read).symm
    · rintro (rfl | ⟨apart, _⟩)
      · exact ⟨fits, rfl⟩
      · exact absurd rfl apart
  · rw [if_neg fun eq => same (key_inj eq)]
    constructor
    · exact fun held => .inr ⟨same, held⟩
    · rintro (rfl | ⟨_, held⟩)
      · exact absurd rfl same
      · exact held

theorem holds_withNonce {store : Store} {record : Nonce.Record} {item : Item} :
    Holds (store.withNonce record) item ↔ Holds store item := by
  unfold Holds Store.withNonce
  rw [Store.get?_put, if_neg (key_ne_nonce _ _)]

theorem tidy_withItem {store : Store} {item : Item} (tidy : Tidy store) (fits : item.Fits) :
    Tidy (store.withItem item) := by
  intro k record there start
  unfold Store.withItem at there
  rw [Store.get?_put] at there
  by_cases same : k = key item.index
  · exact ⟨item, (holds_withItem fits).2 (.inl rfl), same⟩
  · rw [if_neg same] at there
    obtain ⟨other, held, rfl⟩ := tidy k record there start
    exact ⟨other, (holds_withItem fits).2 (.inr ⟨fun eq => same (congrArg key eq), held⟩), rfl⟩

theorem tidy_withNonce {store : Store} {record : Nonce.Record} (tidy : Tidy store) :
    Tidy (store.withNonce record) := by
  intro k bytes there start
  unfold Store.withNonce at there
  rw [Store.get?_put] at there
  by_cases same : k = Nonce.key record.address
  · rw [same, not_keyStart_isPrefixOf_nonce] at start
    cases start
  · rw [if_neg same] at there
    obtain ⟨item, held, rfl⟩ := tidy k bytes there start
    exact ⟨item, holds_withNonce.2 held, rfl⟩

theorem tidy_empty : Tidy Store.empty := by
  intro k record there
  cases there

/-- Where no key is that of an item there are no items. -/
theorem empty_of_scan {store : Store} (empty : store.scan keyStart = []) :
    Tidy store ∧ ∀ item, ¬ Holds store item := by
  have none : ∀ k record, store.get? k = some record → keyStart.isPrefixOf k = true → False := by
    intro k record there begins
    have found := Store.mem_scan.2 ⟨there, begins⟩
    rw [empty] at found
    cases found
  exact ⟨fun k record there begins => (none k record there begins).elim,
    fun item held => none _ _ held.2 (keyStart_isPrefixOf_key _)⟩

/-- In a tidy store an item is had only as it would be written. -/
theorem Tidy.has_iff {store : Store} (tidy : Tidy store) {item : Item} :
    Has store item ↔ Holds store item := by
  constructor
  · rintro ⟨record, there, decoded⟩
    obtain ⟨other, held, same⟩ := tidy _ _ there (keyStart_isPrefixOf_key item.index)
    cases held.2.symm.trans (same ▸ there)
    cases (decode_encode held.1).symm.trans decoded
    exact held
  · exact fun held => ⟨_, held.2, decode_encode held.1⟩

theorem Tidy.keyed {store : Store} (tidy : Tidy store) : Keyed store := by
  intro k record item there begins decoded
  obtain ⟨other, held, rfl⟩ := tidy k record there begins
  cases held.2.symm.trans there
  cases (decode_encode held.1).symm.trans decoded
  rfl

theorem mem_select {status : Item.Status} {entries : List Store.Entry} {item : Item} :
    item ∈ select status entries ↔
      (∃ k record, (k, record) ∈ entries ∧ Item.layout.decode record = .ok item) ∧
        item.status = status := by
  unfold select
  rw [List.mem_filterMap]
  constructor
  · rintro ⟨⟨k, record⟩, found, chosen⟩
    dsimp only at chosen
    split at chosen
    · rename_i other decoded
      split at chosen
      · rename_i same
        cases chosen
        exact ⟨⟨k, record, found, decoded⟩, same⟩
      · cases chosen
    · cases chosen
  · rintro ⟨⟨k, record, found, decoded⟩, same⟩
    exact ⟨(k, record), found, by simp [decoded, same]⟩

theorem Keyed.mem_bucket {store : Store} (keyed : Keyed store) {status : Item.Status} {item : Item} :
    item ∈ bucket store status ↔ Has store item ∧ item.status = status := by
  unfold bucket
  rw [mem_select]
  refine and_congr_left fun _ => ⟨?_, ?_⟩
  · rintro ⟨k, record, found, decoded⟩
    obtain ⟨there, begins⟩ := Store.mem_scan.1 found
    exact ⟨record, keyed k record item there begins decoded ▸ there, decoded⟩
  · rintro ⟨record, there, decoded⟩
    exact ⟨_, record, Store.mem_scan.2 ⟨there, keyStart_isPrefixOf_key _⟩, decoded⟩

theorem Keyed.sorted_bucket {store : Store} (keyed : Keyed store) (status : Item.Status) :
    (bucket store status).Pairwise fun a b => key a.index < key b.index := by
  unfold bucket select
  rw [List.pairwise_filterMap]
  refine (Store.sorted_scan store keyStart).imp_of_mem ?_
  rintro ⟨k, record⟩ ⟨k', record'⟩ found found' before item chosen item' chosen'
  have index : ∀ {k record} {item : Item}, (k, record) ∈ store.scan keyStart →
      item ∈ select status [(k, record)] → k = key item.index := by
    intro k record item found chosen
    obtain ⟨there, begins⟩ := Store.mem_scan.1 found
    obtain ⟨⟨_, _, same, decoded⟩, _⟩ := mem_select.1 chosen
    cases List.mem_singleton.1 same
    exact keyed k record item there begins decoded
  rw [← index found (List.mem_filterMap.2 ⟨_, List.mem_singleton_self _, chosen⟩),
    ← index found' (List.mem_filterMap.2 ⟨_, List.mem_singleton_self _, chosen'⟩)]
  exact before

theorem mem_bucket {store : Store} (tidy : Tidy store) {status : Item.Status} {item : Item} :
    item ∈ bucket store status ↔ Holds store item ∧ item.status = status :=
  tidy.keyed.mem_bucket.trans (and_congr_left fun _ => tidy.has_iff)

theorem sorted_bucket {store : Store} (tidy : Tidy store) (status : Item.Status) :
    (bucket store status).Pairwise fun a b => key a.index < key b.index :=
  tidy.keyed.sorted_bucket status

theorem nodup_bucket {store : Store} (tidy : Tidy store) (status : Item.Status) :
    (bucket store status).Nodup :=
  (sorted_bucket tidy status).imp fun before same => by
    rw [same] at before
    exact List.lt_irrefl _ before

/-- A search is settled by which items it finds. -/
theorem eq_of_mem_bucket {as bs : List Item}
    (ha : as.Pairwise fun a b => key a.index < key b.index)
    (hb : bs.Pairwise fun a b => key a.index < key b.index) (same : ∀ item, item ∈ as ↔ item ∈ bs) :
    as = bs := by
  have : Std.Irrefl fun a b : Item => key a.index < key b.index :=
    ⟨fun a => List.lt_irrefl (key a.index)⟩
  have : Std.Antisymm fun a b : Item => key a.index < key b.index :=
    ⟨fun a b before after => absurd after (List.lt_asymm before)⟩
  exact ha.eq_of_mem_iff hb same

end Items

end Registrar
