import Registrar.Proofs.Queue.AddedItems

/-!
What stands behind the items in a store. Each transaction on record for an item is one on the ledger;
if it took effect, the ledger shows what the item asked for. `Backed` says so of a whole store, and
that the seconds of a name are not fewer than those of the renewals whose transactions took effect.
Whatever the ledger accepts keeps it, and so does every item that is written back when it is `Ready`.
-/

namespace Registrar

open Item (Phase Status Kind)
open Ledger (Submission)

namespace Item

/-- The phase whose transaction completes an item. -/
def Kind.lastPhase : Kind → Phase
  | .register => .register
  | .renew => .renew

/-- Whether the transaction of a phase is on record and took effect. -/
def landed (item : Item) (ledger : Ledger) (phase : Phase) : Bool :=
  (item.sent phase).hash.any ledger.landed

/-- The item's name is registered as the item asked for it. -/
def Named (item : Item) (ledger : Ledger) : Prop :=
  ∃ record, ledger.name? item.fullName = some record ∧
    Fixed.parse item.ownerEthAddress = .ok record.owner ∧
    record.ownerAnyAddress = item.ownerAnyAddress ∧ record.spaceId = item.spaceId

/-- The seconds that the item's renewal has added to a name. -/
def seconds (item : Item) (ledger : Ledger) (name : String) : Nat :=
  if item.fullName = name ∧ item.landed ledger .renew = true then item.renewDuration.toNat else 0

end Item

namespace Ledger

/-- The seconds that renewals have added up to for a name. -/
def renewed (ledger : Ledger) (name : String) : Nat :=
  ((ledger.name? name).map (·.renewedSeconds.toNat)).getD 0

/-- What an entry of a store counts for among the renewals of a name. -/
def credit (ledger : Ledger) (name : String) (entry : Store.Entry) : Nat :=
  if Items.keyStart.isPrefixOf entry.1 then
    ((Item.layout.decode entry.2).toOption.map fun item => item.seconds ledger name).getD 0
  else 0

/-- The seconds that the renewals in a store have added to a name. -/
def credited (ledger : Ledger) (name : String) (store : Store) : Nat :=
  store.total (ledger.credit name)

end Ledger

section

variable {ledger : Ledger} {sender : Address} {nonce : UInt64} {s : Submission} {name : String}
  {item : Item}

theorem landed_after_of_ne {hash : TxHash} (other : hash ≠ (ledger.nextTx sender nonce).hash) :
    (ledger.after sender nonce s).landed hash = ledger.landed hash := by
  rw [Ledger.landed_after, if_neg other]

/-- A name that is registered keeps its owner, whatever is accepted, and loses no seconds. -/
theorem Ledger.name?_grows {record : NameRecord} (known : ledger.name? name = some record) :
    ∃ record', (ledger.after sender nonce s).name? name = some record' ∧
      record'.owner = record.owner ∧ record'.ownerAnyAddress = record.ownerAnyAddress ∧
      record'.spaceId = record.spaceId ∧
      record.renewedSeconds.toNat ≤ record'.renewedSeconds.toNat := by
  cases s with
  | commit commitment => exact ⟨record, known, rfl, rfl, rfl, Nat.le_refl _⟩
  | register registration =>
    refine ⟨record, ?_, rfl, rfl, rfl, Nat.le_refl _⟩
    rw [name?_after_register, if_neg]
    · exact known
    · rintro ⟨can, rfl⟩
      rw [(canRegister_iff.1 can).2] at known
      cases known
  | renew fullName duration =>
    rw [name?_after_renew]
    by_cases same : name = fullName
    · subst same
      rw [if_pos rfl, known]
      refine ⟨_, rfl, rfl, rfl, rfl, ?_⟩
      dsimp only
      rw [toNat_saturatingAdd]
      have small := record.renewedSeconds.toNat_lt
      simp only [UInt64.size]
      omega
    · rw [if_neg same]
      exact ⟨record, known, rfl, rfl, rfl, Nat.le_refl _⟩

theorem Item.Named.after (named : item.Named ledger) : item.Named (ledger.after sender nonce s) := by
  obtain ⟨record, known, owner, any, space⟩ := named
  obtain ⟨record', known', owner', any', space', _⟩ := Ledger.name?_grows known
  exact ⟨record', known', owner' ▸ owner, any'.trans any, space'.trans space⟩

theorem renewed_le_after : ledger.renewed name ≤ (ledger.after sender nonce s).renewed name := by
  unfold Ledger.renewed
  cases known : ledger.name? name with
  | none => exact Nat.zero_le _
  | some record =>
    obtain ⟨record', known', _, _, _, more⟩ :=
      @Ledger.name?_grows ledger sender nonce s name record known
    rw [known']
    exact more

/-- A renewal that takes effect adds its seconds, up to the largest number there is. -/
theorem renewed_after_renew {duration : UInt64} (known : (ledger.name? name).isSome = true) :
    (ledger.after sender nonce (.renew name duration)).renewed name =
      min (UInt64.size - 1) (ledger.renewed name + duration.toNat) := by
  obtain ⟨record, found⟩ := Option.isSome_iff_exists.1 known
  unfold Ledger.renewed
  rw [Ledger.name?_after_renew, if_pos rfl, found]
  exact toNat_saturatingAdd _ _

end

namespace Ledger

variable {ledger ledger' : Ledger} {name : String} {store : Store} {item old : Item}

theorem credit_key (fits : item.Fits) :
    ledger.credit name (Items.key item.index, Items.encode item) = item.seconds ledger name := by
  unfold credit
  rw [if_pos (Items.keyStart_isPrefixOf_key _), Items.decode_encode fits]
  rfl

theorem credit_nonce (account : Address) (record : Bytes) :
    ledger.credit name (Nonce.key account, record) = 0 := by
  unfold credit
  rw [Items.not_keyStart_isPrefixOf_nonce]
  rfl

theorem credited_withItem (held : Items.Holds store old) (fits : item.Fits)
    (index : item.index = old.index) :
    ledger.credited name (store.withItem item) + old.seconds ledger name =
      ledger.credited name store + item.seconds ledger name := by
  have counted := Store.total_put (ledger.credit name) store (Items.key item.index) (Items.encode item)
  rw [credit_key fits, index, held.2, Option.map_some, Option.getD_some, credit_key held.1] at counted
  unfold credited Store.withItem
  rw [index]
  exact counted

theorem credited_insert (fits : item.Fits) (absent : store.get? (Items.key item.index) = none) :
    ledger.credited name (store.withItem item) =
      ledger.credited name store + item.seconds ledger name := by
  have counted := Store.total_put (ledger.credit name) store (Items.key item.index) (Items.encode item)
  rw [credit_key fits, absent] at counted
  exact counted

theorem credited_withNonce (record : Nonce.Record) :
    ledger.credited name (store.withNonce record) = ledger.credited name store := by
  have counted := Store.total_put (ledger.credit name) store (Nonce.key record.address)
    (Nonce.Record.layout.write record)
  rw [credit_nonce] at counted
  unfold credited Store.withNonce
  have before : ((store.get? (Nonce.key record.address)).map fun old =>
      ledger.credit name (Nonce.key record.address, old)).getD 0 = 0 := by
    cases store.get? (Nonce.key record.address) with
    | none => rfl
    | some old => exact @credit_nonce ledger name _ _
  omega

theorem credited_congr (tidy : Items.Tidy store)
    (same : ∀ item, Items.Holds store item → item.seconds ledger' name = item.seconds ledger name) :
    ledger'.credited name store = ledger.credited name store := by
  unfold credited Store.total
  apply congrArg
  apply List.map_congr_left
  rintro ⟨key, record⟩ there
  unfold credit
  by_cases begins : Items.keyStart.isPrefixOf key = true
  · obtain ⟨item, held, rfl⟩ := tidy key record (Store.get?_eq_some_iff.2 there) begins
    have found := Store.get?_eq_some_iff.2 there
    rw [held.2] at found
    cases found
    rw [Items.decode_encode held.1]
    simp only [begins, if_true]
    exact same item held
  · simp only [begins]
    rfl

/-- Some of the items that entries are read as have no more seconds than the entries count for. -/
theorem sum_filterMap_le {entries : List Store.Entry} {read : Store.Entry → Option Item}
    {chosen : Item → Bool} (counts : ∀ entry ∈ entries, ∀ item, read entry = some item →
      chosen item = true → item.renewDuration.toNat ≤ ledger.credit name entry) :
    (((entries.filterMap read).filter chosen).map (·.renewDuration.toNat)).sum ≤
      (entries.map (ledger.credit name)).sum := by
  induction entries with
  | nil => exact Nat.le_refl _
  | cons entry rest ih =>
    have later := ih fun entry there => counts entry (List.mem_cons_of_mem _ there)
    have first := counts entry List.mem_cons_self
    rw [List.map_cons, List.sum_cons]
    cases found : read entry with
    | none =>
      rw [List.filterMap_cons_none found]
      omega
    | some item =>
      rw [List.filterMap_cons_some found]
      by_cases taken : chosen item = true
      · have counted := first item found taken
        rw [List.filter_cons_of_pos taken, List.map_cons, List.sum_cons]
        omega
      · rw [List.filter_cons_of_neg taken]
        omega

/-- Some of the items with a status have no more seconds than the store is credited with. -/
theorem sum_bucket_le (tidy : Items.Tidy store) {status : Status} {chosen : Item → Bool}
    (counts : ∀ item, Items.Holds store item → item.status = status → chosen item = true →
      item.renewDuration.toNat ≤ item.seconds ledger name) :
    (((Items.bucket store status).filter chosen).map (·.renewDuration.toNat)).sum ≤
      ledger.credited name store := by
  unfold Items.bucket Items.select
  rw [Store.scan_eq_filter, List.filterMap_filter]
  apply sum_filterMap_le
  rintro ⟨key, record⟩ there item read taken
  by_cases begins : Items.keyStart.isPrefixOf key = true
  · have found : store.get? key = some record := Store.get?_eq_some_iff.2 there
    obtain ⟨other, held, rfl⟩ := tidy key record found begins
    rw [held.2] at found
    cases found
    simp only [begins, if_true, Items.decode_encode held.1] at read
    split at read
    · rename_i same
      cases read
      rw [credit_key held.1]
      exact counts _ held same taken
    · cases read
  · simp only [begins] at read
    cases read

end Ledger

/-- What the items in the store and the ledger have in common. -/
structure Backed (known : List TxHash) (g : Ground) : Prop where
  tidy : Items.Tidy g.store
  keyed : ∀ hash mined, g.ledger.tx? hash = some mined → mined.handle.hash = hash
  recorded : ∀ item phase hash, Items.Holds g.store item → (item.sent phase).hash = some hash →
    hash ∈ known
  completed : ∀ item, Items.Holds g.store item → item.status = .completed →
    item.landed g.ledger item.kind.lastPhase = true
  named : ∀ item, Items.Holds g.store item → item.landed g.ledger .register = true →
    item.Named g.ledger
  sole : ∀ a b, Items.Holds g.store a → Items.Holds g.store b →
    a.landed g.ledger .register = true → b.landed g.ledger .register = true →
    a.fullName = b.fullName → a.index = b.index
  renewed : ∀ name, min (UInt64.size - 1) (g.ledger.credited name g.store) ≤ g.ledger.renewed name

/-- An item that may be written in the place of an old one. -/
structure Ready (known : List TxHash) (g : Ground) (old item : Item) : Prop where
  held : Items.Holds g.store old
  origin : item.origin = old.origin
  recorded : ∀ phase hash, (item.sent phase).hash = some hash → hash ∈ known
  completed : item.status = .completed → item.landed g.ledger item.kind.lastPhase = true
  named : item.landed g.ledger .register = true → item.Named g.ledger
  sole : item.landed g.ledger .register = true → ∀ other, Items.Holds g.store other →
    other.index ≠ item.index → other.landed g.ledger .register = true →
    other.fullName ≠ item.fullName
  renewed : ∀ name, min (UInt64.size - 1)
    (g.ledger.credited name g.store + item.seconds g.ledger name - old.seconds g.ledger name) ≤
      g.ledger.renewed name

variable {known : List TxHash} {g : Ground} {item old new : Item}

theorem Item.landed_of_sent {a b : Item} {ledger : Ledger} {phase : Phase}
    (same : a.sent phase = b.sent phase) : a.landed ledger phase = b.landed ledger phase := by
  unfold landed
  rw [same]

theorem Item.named_of_origin {a b : Item} {ledger : Ledger} (same : a.origin = b.origin)
    (named : b.Named ledger) : a.Named ledger := by
  have alike : a.origin.Named ledger ↔ b.origin.Named ledger := by rw [same]
  exact alike.2 named

theorem Item.seconds_of_sent {a b : Item} {ledger : Ledger} {name : String}
    (same : a.origin = b.origin) (sent : a.sent .renew = b.sent .renew) :
    a.seconds ledger name = b.seconds ledger name := by
  have duration : a.renewDuration = b.renewDuration := (congrArg Item.renewDuration same :)
  unfold seconds
  rw [fullName_eq_of_origin same, duration, landed_of_sent sent]

/-- Writing an item that is ready keeps the store backed. -/
theorem Backed.write (backed : Backed known g) (ready : Ready known g old item) (date : UInt64) :
    Backed known (g.withItem (item.dated date)) := by
  have fits : (item.dated date).Fits := (Item.fits_iff_of_origin ready.origin).2 ready.held.1
  have index : (item.dated date).index = old.index := Item.index_eq_of_origin ready.origin
  have writes : ∀ other, Items.Holds (g.withItem (item.dated date)).store other →
      other = item.dated date ∨ (other.index ≠ item.index ∧ Items.Holds g.store other) :=
    fun other held => (Items.holds_withItem fits).1 held
  constructor
  · exact Items.tidy_withItem backed.tidy fits
  · exact backed.keyed
  · intro other phase hash held sent
    rcases writes other held with rfl | ⟨_, held⟩
    · rw [Item.sent_dated] at sent
      exact ready.recorded phase hash sent
    · exact backed.recorded other phase hash held sent
  · intro other held status
    rcases writes other held with rfl | ⟨_, held⟩
    · exact ready.completed status
    · exact backed.completed other held status
  · intro other held landed
    rcases writes other held with rfl | ⟨_, held⟩
    · exact ready.named landed
    · exact backed.named other held landed
  · intro a b heldA heldB landedA landedB same
    rcases writes a heldA with rfl | ⟨apart, heldA⟩ <;> rcases writes b heldB with rfl | ⟨apart', heldB⟩
    · rfl
    · exact absurd same.symm (ready.sole landedA b heldB apart' landedB)
    · exact absurd same (ready.sole landedB a heldA apart landedA)
    · exact backed.sole a b heldA heldB landedA landedB same
  · intro name
    have counted := @Ledger.credited_withItem g.ledger name g.store (item.dated date) old
      ready.held fits index
    have seconds : (item.dated date).seconds g.ledger name = item.seconds g.ledger name :=
      Item.seconds_of_sent rfl (Item.sent_dated _ _ _)
    have enough := ready.renewed name
    have total : g.ledger.credited name (g.store.withItem (item.dated date)) =
        g.ledger.credited name g.store + item.seconds g.ledger name - old.seconds g.ledger name := by
      omega
    exact total ▸ enough

/-- An item with the transactions of the one in its place is ready if it is not completed by that. -/
theorem Backed.ready (backed : Backed known g) (held : Items.Holds g.store old)
    (origin : item.origin = old.origin) (sent : ∀ phase, item.sent phase = old.sent phase)
    (completed : item.status = .completed → old.landed g.ledger item.kind.lastPhase = true) :
    Ready known g old item := by
  have landed : ∀ phase, item.landed g.ledger phase = old.landed g.ledger phase :=
    fun phase => Item.landed_of_sent (sent phase)
  constructor
  · exact held
  · exact origin
  · intro phase hash recorded
    rw [sent] at recorded
    exact backed.recorded old phase hash held recorded
  · intro status
    rw [landed]
    exact completed status
  · intro taken
    rw [landed] at taken
    exact Item.named_of_origin origin (backed.named old held taken)
  · intro taken other held' apart taken' same
    rw [landed] at taken
    have index := backed.sole other old held' held taken' taken
      (same.trans (Item.fullName_eq_of_origin origin))
    exact apart (index.trans (Item.index_eq_of_origin origin).symm)
  · intro name
    rw [Item.seconds_of_sent origin (sent .renew), Nat.add_sub_cancel]
    exact backed.renewed name

theorem Backed.note (backed : Backed known g) (tx : TxHandle) : Backed known (g.noting tx) where
  tidy := Items.tidy_withNonce backed.tidy
  keyed := backed.keyed
  recorded item phase hash held := backed.recorded item phase hash (Items.holds_withNonce.1 held)
  completed item held := backed.completed item (Items.holds_withNonce.1 held)
  named item held := backed.named item (Items.holds_withNonce.1 held)
  sole a b heldA heldB :=
    backed.sole a b (Items.holds_withNonce.1 heldA) (Items.holds_withNonce.1 heldB)
  renewed name := by
    have same := @Ledger.credited_withNonce g.ledger name g.store
      ⟨tx.sender, saturatingAdd tx.nonce 1⟩
    exact same ▸ backed.renewed name

section

variable {s : Submission} {sender : Address} {nonce : UInt64}

/-- What is accepted under a new hash changes nothing about the transactions of items. -/
theorem Backed.landed_accepting (backed : Backed known g)
    (fresh : (g.ledger.nextTx sender nonce).hash ∉ known) (held : Items.Holds g.store item)
    (phase : Phase) :
    item.landed (g.accepting sender nonce s).ledger phase = item.landed g.ledger phase := by
  unfold Item.landed
  cases recorded : (item.sent phase).hash with
  | none => rfl
  | some hash =>
    have known := backed.recorded item phase hash held recorded
    have other : hash ≠ (g.ledger.nextTx sender nonce).hash := fun same => fresh (same ▸ known)
    exact landed_after_of_ne other

theorem Backed.credited_accepting (backed : Backed known g) (s : Submission)
    (fresh : (g.ledger.nextTx sender nonce).hash ∉ known) (name : String) :
    (g.accepting sender nonce s).ledger.credited name g.store = g.ledger.credited name g.store := by
  apply Ledger.credited_congr backed.tidy
  intro item held
  unfold Item.seconds
  rw [backed.landed_accepting fresh held]

theorem Backed.accept (backed : Backed known g) (s : Submission)
    (fresh : (g.ledger.nextTx sender nonce).hash ∉ known) :
    Backed (known ++ [(g.ledger.nextTx sender nonce).hash]) (g.accepting sender nonce s) := by
  have landed : ∀ {item}, Items.Holds g.store item → ∀ phase,
      item.landed (g.accepting sender nonce s).ledger phase = item.landed g.ledger phase :=
    fun held => backed.landed_accepting fresh held
  constructor
  · exact backed.tidy
  · intro hash mined there
    rw [Ground.ledger_accepting, Ledger.tx?_after] at there
    split at there
    · rename_i same
      cases there
      exact same.symm
    · exact backed.keyed hash mined there
  · intro item phase hash held sent
    exact List.mem_append_left _ (backed.recorded item phase hash held sent)
  · intro item held status
    rw [landed held]
    exact backed.completed item held status
  · intro item held taken
    rw [landed held] at taken
    exact (backed.named item held taken).after
  · intro a b heldA heldB takenA takenB
    rw [landed heldA] at takenA
    rw [landed heldB] at takenB
    exact backed.sole a b heldA heldB takenA takenB
  · intro name
    rw [Ground.store_accepting, backed.credited_accepting s fresh]
    exact (backed.renewed name).trans renewed_le_after

theorem register_of_submission {r : Registration} (submits : item.submission = some (.register r)) :
    ∃ account, Processor.owner item = .ok account ∧ r = item.registration account := by
  unfold Item.submission at submits
  split at submits
  · obtain ⟨account, _, same⟩ := Option.map_eq_some_iff.1 submits
    cases same
  · obtain ⟨account, owned, same⟩ := Option.map_eq_some_iff.1 submits
    cases same
    cases owner : Processor.owner item with
    | error error =>
      rw [owner] at owned
      cases owned
    | ok other =>
      rw [owner] at owned
      cases owned
      exact ⟨account, rfl, rfl⟩
  · cases submits
  · cases submits

theorem renew_of_submission {fullName : String} {duration : UInt64}
    (submits : item.submission = some (.renew fullName duration)) :
    fullName = item.fullName ∧ duration = item.renewDuration := by
  unfold Item.submission at submits
  split at submits
  · obtain ⟨account, _, same⟩ := Option.map_eq_some_iff.1 submits
    cases same
  · obtain ⟨account, _, same⟩ := Option.map_eq_some_iff.1 submits
    cases same
  · cases submits
    exact ⟨rfl, rfl⟩
  · cases submits

theorem next_of_submission (submits : item.submission = some s) :
    Status.next item.kind item.status ≠ .completed := by
  unfold Item.submission at submits
  cases kind : item.kind <;> cases status : item.status <;> rw [kind, status] at submits <;>
    first | decide | cases submits

/-- The transactions of an item that was just sent. -/
theorem landed_sent (phase : Phase) :
    (item.record (g.ledger.nextTx sender nonce) s.phase).advanced.landed
        (g.ledger.after sender nonce s) phase =
      if phase = s.phase then g.ledger.effective s
      else item.landed (g.ledger.after sender nonce s) phase := by
  unfold Item.landed
  rw [Item.sent_advanced, Item.sent_record]
  split
  · rw [Option.any_some, Ledger.landed_after, if_pos rfl]
  · rfl

/-- Only a renewal of the name that takes effect can add to its seconds. -/
theorem seconds_sent {name : String} (submits : item.submission = some s)
    (other : ∀ duration, ¬ (s = .renew name duration ∧ g.ledger.effective s = true)) :
    (item.record (g.ledger.nextTx sender nonce) s.phase).advanced.seconds
        (g.ledger.after sender nonce s) name ≤ item.seconds (g.ledger.after sender nonce s) name := by
  have origin : (item.record (g.ledger.nextTx sender nonce) s.phase).advanced.origin = item.origin :=
    Item.origin_record _ _ _
  have duration : (item.record (g.ledger.nextTx sender nonce) s.phase).advanced.renewDuration =
      item.renewDuration := (congrArg Item.renewDuration origin :)
  unfold Item.seconds
  rw [landed_sent, duration, Item.fullName_eq_of_origin origin]
  by_cases phase : Phase.renew = s.phase
  · rw [if_pos phase]
    have quiet : ¬ (item.fullName = name ∧ g.ledger.effective s = true) := by
      rintro ⟨rfl, effective⟩
      cases s with
      | commit commitment => cases phase
      | register r => cases phase
      | renew fullName seconds =>
        obtain ⟨rfl, rfl⟩ := renew_of_submission submits
        exact other _ ⟨rfl, effective⟩
    rw [if_neg quiet]
    exact Nat.zero_le _
  · rw [if_neg phase]

/-- The seconds of a name are enough for an item that was just sent. -/
theorem Backed.renewed_sent (backed : Backed known g)
    (fresh : (g.ledger.nextTx sender nonce).hash ∉ known) (submits : item.submission = some s)
    (name : String) :
    min (UInt64.size - 1) ((g.accepting sender nonce s).ledger.credited name g.store +
        (item.record (g.ledger.nextTx sender nonce) s.phase).advanced.seconds
          (g.accepting sender nonce s).ledger name -
        item.seconds (g.accepting sender nonce s).ledger name) ≤
      (g.accepting sender nonce s).ledger.renewed name := by
  by_cases renewal : ∃ duration, s = .renew name duration ∧ g.ledger.effective s = true
  · obtain ⟨duration, rfl, effective⟩ := renewal
    obtain ⟨rfl, rfl⟩ := renew_of_submission submits
    have before := backed.renewed item.fullName
    have same := (backed.credited_accepting (.renew item.fullName item.renewDuration) fresh item.fullName)
    have added := @renewed_after_renew g.ledger sender nonce item.fullName item.renewDuration effective
    have few : (item.record (g.ledger.nextTx sender nonce) .renew).advanced.seconds
        (g.ledger.after sender nonce (.renew item.fullName item.renewDuration)) item.fullName ≤
          item.renewDuration.toNat := by
      unfold Item.seconds
      split
      · exact Nat.le_refl _
      · exact Nat.zero_le _
    rw [Ground.ledger_accepting] at same ⊢
    rw [added, same]
    simp only [Submission.phase]
    omega
  · have enough := (backed.accept s fresh).renewed name
    have few := @seconds_sent g item s sender nonce name submits
      fun duration renews => renewal ⟨duration, renews⟩
    rw [Ground.store_accepting, Ground.ledger_accepting] at enough
    rw [Ground.ledger_accepting]
    omega

/-- An item whose submission was accepted is ready to be written with its transaction. -/
theorem Backed.ready_sent (backed : Backed known g)
    (fresh : (g.ledger.nextTx sender nonce).hash ∉ known) (held : Items.Holds g.store item)
    (submits : item.submission = some s) :
    Ready (known ++ [(g.ledger.nextTx sender nonce).hash]) (g.accepting sender nonce s) item
      (item.record (g.ledger.nextTx sender nonce) s.phase).advanced := by
  have origin : (item.record (g.ledger.nextTx sender nonce) s.phase).advanced.origin = item.origin :=
    Item.origin_record _ _ _
  have accepted := @Backed.accept known g sender nonce backed s fresh
  have landed : ∀ {other}, Items.Holds g.store other → ∀ phase,
      other.landed (g.accepting sender nonce s).ledger phase = other.landed g.ledger phase :=
    fun held => backed.landed_accepting fresh held
  -- The registration is new only where it was the one accepted, and then the name was free.
  have registers : (item.record (g.ledger.nextTx sender nonce) s.phase).advanced.landed
      (g.accepting sender nonce s).ledger .register = true →
      (item.landed g.ledger .register = true ∨
        ∃ account, Processor.owner item = .ok account ∧ s = .register (item.registration account) ∧
          g.ledger.canRegister (item.registration account) = true) := by
    intro taken
    rw [Ground.ledger_accepting, landed_sent] at taken
    split at taken
    · rename_i phase
      cases s with
      | commit commitment => cases phase
      | renew fullName duration => cases phase
      | register r =>
        obtain ⟨account, owned, rfl⟩ := register_of_submission submits
        exact .inr ⟨account, owned, rfl, taken⟩
    · exact .inl ((landed held .register).symm.trans taken)
  constructor
  · exact held
  · exact origin
  · intro phase hash recorded
    rw [Item.sent_advanced, Item.sent_record] at recorded
    split at recorded
    · cases recorded
      exact List.mem_append_right _ (List.mem_singleton_self _)
    · exact accepted.recorded item phase hash held recorded
  · intro completed
    have status := next_of_submission submits
    simp only [Item.advanced, Item.kind_record, Item.status_record] at completed
    exact absurd completed status
  · intro taken
    apply Item.named_of_origin origin
    rcases registers taken with before | ⟨account, owned, rfl, can⟩
    · exact (backed.named item held before).after
    · have known : (g.accepting sender nonce (.register (item.registration account))).ledger.name?
          item.fullName =
            some ⟨account, item.ownerAnyAddress, item.spaceId, g.ledger.block + 1, 0⟩ :=
        (Ledger.name?_after_register _ _).trans (if_pos ⟨can, rfl⟩)
      exact ⟨_, known, Processor.owner_eq_ok.1 owned, rfl, rfl⟩
  · intro taken other held' apart taken' same
    rw [landed held'] at taken'
    have index : (item.record (g.ledger.nextTx sender nonce) s.phase).advanced.index = item.index :=
      Item.index_eq_of_origin origin
    have name : other.fullName = item.fullName := same.trans (Item.fullName_eq_of_origin origin)
    rw [index] at apart
    rcases registers taken with before | ⟨account, owned, rfl, can⟩
    · exact apart (backed.sole other item held' held taken' before name)
    · obtain ⟨record, known, _⟩ := backed.named other held' taken'
      have free : g.ledger.name? item.fullName = none := (Ledger.canRegister_iff.1 can).2
      rw [name, free] at known
      cases known
  · exact backed.renewed_sent fresh submits

end

theorem Item.Fresh.landed {ledger : Ledger} (fresh : item.Fresh) (phase : Phase) :
    item.landed ledger phase = false := by
  unfold Item.landed
  rw [fresh.2 phase]
  rfl

theorem Item.Fresh.seconds {ledger : Ledger} (fresh : item.Fresh) (name : String) :
    item.seconds ledger name = 0 := by
  unfold Item.seconds
  rw [fresh.landed]
  exact if_neg fun h => nomatch h.2

/-- A new item brings no transactions. -/
theorem Backed.insert (backed : Backed known g) (new : item.New)
    (absent : g.store.get? (Items.key item.index) = none) : Backed known (g.withItem item) := by
  have fresh := new.fresh
  have writes : ∀ other, Items.Holds (g.withItem item).store other →
      other = item ∨ (other.index ≠ item.index ∧ Items.Holds g.store other) :=
    fun other held => (Items.holds_withItem new.1).1 held
  constructor
  · exact Items.tidy_withItem backed.tidy new.1
  · exact backed.keyed
  · intro other phase hash held sent
    rcases writes other held with rfl | ⟨_, held⟩
    · rw [fresh.2 phase] at sent
      cases sent
    · exact backed.recorded other phase hash held sent
  · intro other held status
    rcases writes other held with rfl | ⟨_, held⟩
    · rw [fresh.1] at status
      cases status
    · exact backed.completed other held status
  · intro other held landed
    rcases writes other held with rfl | ⟨_, held⟩
    · rw [fresh.landed] at landed
      cases landed
    · exact backed.named other held landed
  · intro a b heldA heldB landedA landedB same
    rcases writes a heldA with rfl | ⟨_, heldA⟩
    · rw [fresh.landed] at landedA
      cases landedA
    · rcases writes b heldB with rfl | ⟨_, heldB⟩
      · rw [fresh.landed] at landedB
        cases landedB
      · exact backed.sole a b heldA heldB landedA landedB same
  · intro name
    have counted := @Ledger.credited_insert g.ledger name g.store item new.1 absent
    rw [fresh.seconds, Nat.add_zero] at counted
    exact counted ▸ backed.renewed name

/-- An item that is ready stays so when a new one comes in. -/
theorem Ready.insert {other : Item} (ready : Ready known g old item) (new : other.New)
    (absent : g.store.get? (Items.key other.index) = none) :
    Ready known (g.withItem other) old item := by
  have fresh := new.fresh
  have apart : old.index ≠ other.index := by
    intro same
    have there := ready.held.2
    rw [same, absent] at there
    cases there
  constructor
  · exact (Items.holds_withItem new.1).2 (.inr ⟨apart, ready.held⟩)
  · exact ready.origin
  · exact ready.recorded
  · exact ready.completed
  · exact ready.named
  · intro landed third held different landed'
    rcases (Items.holds_withItem new.1).1 held with rfl | ⟨_, held⟩
    · rw [fresh.landed] at landed'
      cases landed'
    · exact ready.sole landed third held different landed'
  · intro name
    have counted := @Ledger.credited_insert g.ledger name g.store other new.1 absent
    rw [fresh.seconds, Nat.add_zero] at counted
    have enough := ready.renewed name
    rw [← counted] at enough
    exact enough

end Registrar
