import Registrar.Proofs.Item.Backing
import Registrar.Proofs.Scene.ItemInHand

/-!
The traces that unfinished items have left on the ledger. An item that waits finds its transaction
under the hash on record for it, and a name that was committed to is still committed to or was taken
meanwhile. `followed_carries` says that all this holds in every scene with a healthy gateway, whatever
the store fails to write.
-/

namespace Registrar

open Item (Phase Status Kind)
open Ledger (Submission Profile)

namespace Item

/-- The commitment to the registration of the item's name, where its owner is known. -/
def commitment? (item : Item) : Option Commitment :=
  (Processor.owner item).toOption.map fun account => (item.registration account).commitment

/-- A name is registered that is the item's own or was committed to as the item's is. -/
def Taken (item : Item) (g : Ground) : Prop :=
  ∃ other, Items.Holds g.store other ∧
    (other.fullName = item.fullName ∨ other.commitment? = item.commitment?) ∧
    (g.ledger.name? other.fullName).isSome = true

/-- The item's name was committed to, and nothing was revealed as far as the item knows. -/
structure Committed (item : Item) (g : Ground) : Prop where
  kind : item.kind = .register
  hidden : (item.sent .register).hash = none
  committed : ∃ commitment, item.commitment? = some commitment ∧
    (g.ledger.commitments.contains commitment = true ∨ item.Taken g)

/-- How far the item has come, with what the ledger shows of it. -/
inductive Traced (account : Address) (g : Ground) (item : Item) : Prop where
  | initial : item.status = .initial → (item.sent .register).hash = none → Traced account g item
  | commitSent (tx : TxHandle) :
      item.status = .commitSent → item.Committed g →
      item.sent .commit = ⟨some tx.hash, some tx.nonce⟩ →
      g.ledger.tx? tx.hash = some ⟨tx, true⟩ → tx.sender = account →
      tx.nonce.toNat < (g.ledger.minedNonce account).toNat → Traced account g item
  | commitDone : item.status = .commitDone → item.Committed g → Traced account g item
  | registerSent (tx : TxHandle) (success : Bool) :
      item.status = .registerSent → item.kind = .register →
      (item.sent .register).hash = some tx.hash →
      g.ledger.tx? tx.hash = some ⟨tx, success⟩ → success = true ∨ item.Taken g →
      Traced account g item
  | renewSent : item.status = .renewSent → item.kind = .renew → Traced account g item
  | rest : item.status.isTerminal = true → Traced account g item

end Item

/-- What the ledger shows of the items in the store, `base` being the account's first nonce. -/
structure Followed (account : Address) (base : Nat) (known : List TxHash) (g : Ground) : Prop where
  tidy : Items.Tidy g.store
  few : (g.ledger.minedNonce account).toNat ≤ base + known.length
  offered : ∃ nonce, g.nextNonce account = .ok nonce
  recorded : ∀ item phase hash, Items.Holds g.store item → (item.sent phase).hash = some hash →
    hash ∈ known
  traced : ∀ item, Items.Holds g.store item → item.Traced account g
  apart : ∀ a b, Items.Holds g.store a → Items.Holds g.store b → a.status = .commitSent →
    b.status = .commitSent → (a.sent .commit).nonce = (b.sent .commit).nonce → a.index = b.index

/-- An item that may be written in the place of an old one. -/
structure Fit (account : Address) (known : List TxHash) (g : Ground) (old item : Item) : Prop where
  held : Items.Holds g.store old
  origin : item.origin = old.origin
  recorded : ∀ phase hash, (item.sent phase).hash = some hash → hash ∈ known
  traced : item.Traced account g
  apart : item.status = .commitSent → ∀ other, Items.Holds g.store other →
    other.index ≠ item.index → other.status = .commitSent →
    (other.sent .commit).nonce ≠ (item.sent .commit).nonce

/-- No hash comes twice, and there are nonces left. -/
def Sane (base : Nat) (known : List TxHash) : Prop := known.Nodup ∧ base + known.length + 2 < 2 ^ 64

variable {g g' : Ground} {item old other : Item} {s : Submission} {account sender : Address}
  {nonce : UInt64} {known : List TxHash} {base : Nat} {tx : TxHandle}

namespace Item

theorem commitment?_eq_of_origin {a b : Item} (same : a.origin = b.origin) :
    a.commitment? = b.commitment? :=
  (congrArg commitment? same :)

theorem commitment?_of_owner {owner : Address} (owned : Processor.owner item = .ok owner) :
    item.commitment? = some (item.registration owner).commitment := by
  unfold commitment?
  rw [owned]
  rfl

theorem Committed.owned (committed : item.Committed g) :
    ∃ owner, Processor.owner item = .ok owner := by
  obtain ⟨_, _, commitment, same, _⟩ := committed
  unfold commitment? at same
  cases owned : Processor.owner item with
  | error error =>
    rw [owned] at same
    cases same
  | ok owner => exact ⟨owner, rfl⟩

theorem Taken.of_origin {a b : Item} (taken : a.Taken g) (same : a.origin = b.origin) : b.Taken g := by
  obtain ⟨other, held, alike, registered⟩ := taken
  rw [fullName_eq_of_origin same, commitment?_eq_of_origin same] at alike
  exact ⟨other, held, alike, registered⟩

theorem Taken.accepting (taken : item.Taken g) : item.Taken (g.accepting sender nonce s) := by
  obtain ⟨other, held, alike, registered⟩ := taken
  obtain ⟨record, known⟩ := Option.isSome_iff_exists.1 registered
  obtain ⟨record', known', _⟩ := @Ledger.name?_grows _ sender nonce s _ _ known
  refine ⟨other, held, alike, ?_⟩
  rw [Ground.ledger_accepting, known']
  rfl

theorem Taken.noting (taken : item.Taken g) : item.Taken (g.noting tx) := by
  obtain ⟨other, held, rest⟩ := taken
  exact ⟨other, Items.holds_withNonce.2 held, rest⟩

/-- Another state of an item stands for it among the items of the store. -/
theorem Taken.withItem {written : Item} (taken : item.Taken g) (held : Items.Holds g.store old)
    (origin : written.origin = old.origin) : item.Taken (g.withItem written) := by
  have fits : written.Fits := (Item.fits_iff_of_origin origin).2 held.1
  obtain ⟨other, held', alike, registered⟩ := taken
  by_cases same : other.index = written.index
  · have index : other.index = old.index := same.trans (Item.index_eq_of_origin origin)
    cases Items.holds_inj held' held index
    refine ⟨written, (Items.holds_withItem fits).2 (.inl rfl), ?_, ?_⟩
    · rw [Item.fullName_eq_of_origin origin, commitment?_eq_of_origin origin]
      exact alike
    · rw [Item.fullName_eq_of_origin origin]
      exact registered
  · exact ⟨other, (Items.holds_withItem fits).2 (.inr ⟨same, held'⟩), alike, registered⟩

theorem Taken.insert (taken : item.Taken g) (new : old.New)
    (absent : g.store.get? (Items.key old.index) = none) : item.Taken (g.withItem old) := by
  obtain ⟨other, held, rest⟩ := taken
  exact ⟨other, holds_insert held new absent, rest⟩

theorem Committed.carry {written : Item} (committed : item.Committed g)
    (origin : written.origin = item.origin) (sent : written.sent .register = item.sent .register)
    (kept : ∀ commitment, item.commitment? = some commitment →
      g.ledger.commitments.contains commitment = true →
      g'.ledger.commitments.contains commitment = true ∨ item.Taken g')
    (taken : item.Taken g → item.Taken g') : written.Committed g' := by
  obtain ⟨kind, hidden, commitment, same, there⟩ := committed
  refine ⟨(Item.kind_eq_of_origin origin).trans kind, sent ▸ hidden, commitment, ?_, ?_⟩
  · rw [commitment?_eq_of_origin origin]
    exact same
  · rcases there with there | before
    · exact (kept commitment same there).imp_right fun taken => taken.of_origin origin.symm
    · exact .inr ((taken before).of_origin origin.symm)

theorem Traced.hidden (traced : item.Traced account g) (status : item.status = .initial) :
    (item.sent .register).hash = none := by
  cases traced with
  | initial _ hidden => exact hidden
  | commitSent _ status' | commitDone status' | registerSent _ _ status' | renewSent status' =>
    rw [status] at status'
    cases status'
  | rest terminal =>
    rw [status] at terminal
    cases terminal

theorem Traced.committed (traced : item.Traced account g)
    (status : item.status = .commitSent ∨ item.status = .commitDone) : item.Committed g := by
  cases traced with
  | commitSent _ _ committed | commitDone _ committed => exact committed
  | initial status' | registerSent _ _ status' | renewSent status' =>
    rw [status'] at status
    rcases status with other | other <;> cases other
  | rest terminal =>
    rcases status with status | status <;> rw [status] at terminal <;> cases terminal

/-- What is traced stays so while its transactions and its commitment stay. -/
theorem Traced.carry (traced : item.Traced account g)
    (txs : ∀ phase hash, (item.sent phase).hash = some hash → g'.ledger.tx? hash = g.ledger.tx? hash)
    (grows : (g.ledger.minedNonce account).toNat ≤ (g'.ledger.minedNonce account).toNat)
    (kept : ∀ commitment, item.commitment? = some commitment →
      g.ledger.commitments.contains commitment = true →
      g'.ledger.commitments.contains commitment = true ∨ item.Taken g')
    (taken : item.Taken g → item.Taken g') : item.Traced account g' := by
  cases traced with
  | initial status hidden => exact .initial status hidden
  | commitSent tx status committed sent there own before =>
    have there' := txs .commit tx.hash (by rw [sent])
    exact .commitSent tx status (committed.carry rfl rfl kept taken) sent (there'.trans there) own
      (Nat.lt_of_lt_of_le before grows)
  | commitDone status committed => exact .commitDone status (committed.carry rfl rfl kept taken)
  | registerSent tx success status kind sent there revealed =>
    exact .registerSent tx success status kind sent ((txs .register tx.hash sent).trans there)
      (revealed.imp_right taken)
  | renewSent status kind => exact .renewSent status kind
  | rest terminal => exact .rest terminal

/-- What is traced stays so while the ledger stays as it is. -/
theorem Traced.same_ledger (traced : item.Traced account g) (ledger : g'.ledger = g.ledger)
    (taken : item.Taken g → item.Taken g') : item.Traced account g' := by
  apply traced.carry
  · intro phase hash _
    rw [ledger]
  · rw [ledger]
  · intro commitment _ there
    rw [ledger]
    exact .inl there
  · exact taken

theorem Traced.dated (traced : item.Traced account g) (date : UInt64) :
    (item.dated date).Traced account g := by
  have origin : (item.dated date).origin = item.origin := rfl
  have moved : item.Committed g → (item.dated date).Committed g := fun committed =>
    committed.carry origin rfl (fun _ _ there => .inl there) id
  cases traced with
  | initial status hidden => exact .initial status hidden
  | commitSent tx status committed sent there own before =>
    exact .commitSent tx status (moved committed) sent there own before
  | commitDone status committed => exact .commitDone status (moved committed)
  | registerSent tx success status kind sent there revealed =>
    exact .registerSent tx success status kind sent there
      (revealed.imp_right fun taken => taken.of_origin origin.symm)
  | renewSent status kind => exact .renewSent status kind
  | rest terminal => exact .rest terminal

theorem status_advanced (item : Item) : item.advanced.status = Status.next item.kind item.status :=
  rfl

theorem Traced.advanced (traced : item.Traced account g) (waits : item.Waits g tx) :
    item.advanced.Traced account g := by
  have live := waits.live
  obtain ⟨phase, _, _, awaits, _⟩ := waits
  unfold awaited at awaits
  cases traced with
  | initial status | commitDone status =>
    rw [status] at awaits
    cases kind : item.kind <;> rw [kind] at awaits <;> cases awaits
  | commitSent tx status committed =>
    apply Traced.commitDone
    · rw [status_advanced, committed.kind, status]
      rfl
    · exact committed.carry rfl (item.sent_advanced .register) (fun _ _ there => .inl there) id
  | registerSent tx success status kind =>
    apply Traced.rest
    rw [status_advanced, kind, status]
    rfl
  | renewSent status kind =>
    apply Traced.rest
    rw [status_advanced, kind, status]
    rfl
  | rest terminal =>
    rw [live] at terminal
    cases terminal

end Item

/-- What an item submits, by its kind and its status. -/
theorem submission_cases (submits : item.submission = some s) :
    (item.kind = .register ∧ item.status = .initial ∧
        ∃ commitment, item.commitment? = some commitment ∧ s = .commit commitment) ∨
      (item.kind = .register ∧ item.status = .commitDone ∧
        ∃ owner, Processor.owner item = .ok owner ∧ s = .register (item.registration owner)) ∨
      (item.kind = .renew ∧ item.status = .initial ∧
        s = .renew item.fullName item.renewDuration) := by
  unfold Item.submission at submits
  split at submits
  · rename_i kind status
    obtain ⟨owner, owned, rfl⟩ := Option.map_eq_some_iff.1 submits
    refine .inl ⟨kind, status, _, ?_, rfl⟩
    unfold Item.commitment?
    rw [owned]
    rfl
  · rename_i kind status
    obtain ⟨owner, owned, rfl⟩ := Option.map_eq_some_iff.1 submits
    refine .inr (.inl ⟨kind, status, owner, ?_, rfl⟩)
    cases known : Processor.owner item with
    | error error =>
      rw [known] at owned
      cases owned
    | ok other =>
      rw [known] at owned
      cases owned
      rfl
  · rename_i kind status
    cases submits
    exact .inr (.inr ⟨kind, status, rfl⟩)
  · cases submits

/-- What is committed to stays so when another item is sent, unless the name is taken by that. -/
theorem committed_accepting (held : Items.Holds g.store item) (submits : item.submission = some s)
    {commitment : Commitment} (same : other.commitment? = some commitment)
    (there : g.ledger.commitments.contains commitment = true) :
    (g.accepting sender nonce s).ledger.commitments.contains commitment = true ∨
      other.Taken (g.accepting sender nonce s) := by
  rcases submission_cases submits with ⟨_, _, _, _, rfl⟩ | ⟨_, _, owner, owned, rfl⟩ | ⟨_, _, rfl⟩
  · left
    rw [Ground.ledger_accepting, Ledger.commitment_after_commit, there, Bool.or_true]
  · by_cases used : g.ledger.canRegister (item.registration owner) = true ∧
        commitment = (item.registration owner).commitment
    · right
      obtain ⟨can, rfl⟩ := used
      refine ⟨item, held, .inr ((Item.commitment?_of_owner owned).trans same.symm), ?_⟩
      have known := @Ledger.name?_after_register g.ledger sender nonce (item.registration owner)
        item.fullName
      rw [if_pos ⟨can, rfl⟩] at known
      rw [Ground.ledger_accepting, known]
      rfl
    · left
      have unused : (g.ledger.canRegister (item.registration owner) &&
          decide (commitment = (item.registration owner).commitment)) = false := by
        rw [Bool.and_eq_false_iff, decide_eq_false_iff_not]
        by_cases can : g.ledger.canRegister (item.registration owner) = true
        · exact .inr fun same => used ⟨can, same⟩
        · exact .inl (Bool.eq_false_iff.2 can)
      rw [Ground.ledger_accepting, Ledger.commitment_after_register, there, unused]
      rfl
  · left
    rw [Ground.ledger_accepting, Ledger.commitment_after_renew]
    exact there

theorem minedNonce_accepted (room : (g.ledger.minedNonce account).toNat + 1 < 2 ^ 64) :
    ((g.accepting account nonce s).ledger.minedNonce account).toNat =
      (g.ledger.minedNonce account).toNat + if g.ledger.effective s = true then 1 else 0 := by
  rw [Ground.ledger_accepting, Ledger.minedNonce_after]
  by_cases effective : g.ledger.effective s = true
  · rw [if_pos ⟨effective, rfl⟩, if_pos effective, UInt64.toNat_add, UInt64.toNat_one]
    exact Nat.mod_eq_of_lt room
  · rw [if_neg fun both => effective both.1, if_neg effective]
    rfl

theorem offered_accepting (offered : ∃ nonce, g.nextNonce account = .ok nonce) :
    ∃ nonce', (g.accepting sender nonce s).nextNonce account = .ok nonce' := by
  unfold Ground.nextNonce at *
  rw [Ground.store_accepting]
  cases found : g.store.get? (Nonce.key account) with
  | none => exact ⟨_, rfl⟩
  | some bytes =>
    rw [found] at offered
    exact offered

theorem offered_noting (offered : ∃ nonce, g.nextNonce account = .ok nonce) :
    ∃ nonce, (g.noting tx).nextNonce account = .ok nonce := by
  by_cases same : Nonce.key account = Nonce.key tx.sender
  · have noted := @Ground.nextNonce_noting g tx
    unfold Ground.nextNonce at noted ⊢
    rw [same]
    cases found : (g.noting tx).store.get? (Nonce.key tx.sender) with
    | none => exact ⟨_, rfl⟩
    | some bytes =>
      rw [found] at noted
      dsimp only at noted ⊢
      split at noted
      · rename_i record _
        exact ⟨record.nonce, rfl⟩
      · cases noted
  · have kept : (g.noting tx).store.get? (Nonce.key account) = g.store.get? (Nonce.key account) := by
      unfold Ground.noting Store.withNonce
      rw [Store.get?_put, if_neg same]
    unfold Ground.nextNonce at offered ⊢
    rw [kept]
    exact offered

namespace Followed

variable {profile : Profile}

theorem room {later : List TxHash} (followed : Followed account base known g)
    (sane : Sane base (known ++ later)) :
    (g.ledger.minedNonce account).toNat + later.length + 2 < 2 ^ 64 := by
  have few := followed.few
  have bounded := sane.2
  rw [List.length_append] at bounded
  omega

theorem room_next {hash : TxHash} (followed : Followed account base known g)
    (sane : Sane base (known ++ [hash])) : (g.ledger.minedNonce account).toNat + 1 < 2 ^ 64 := by
  have room := followed.room sane
  rw [List.length_singleton] at room
  omega

theorem traced_accepting (followed : Followed account base known g)
    (held : Items.Holds g.store item) (submits : item.submission = some s)
    (sane : Sane base (known ++ [(g.ledger.nextTx account nonce).hash]))
    (held' : Items.Holds g.store other) : other.Traced account (g.accepting account nonce s) := by
  apply (followed.traced other held').carry
  · intro phase hash sent
    have before := followed.recorded other phase hash held' sent
    rw [Ground.ledger_accepting, Ledger.tx?_after, if_neg]
    rintro rfl
    exact (List.nodup_append.1 sane.1).2.2 _ before _ (List.mem_singleton_self _) rfl
  · rw [minedNonce_accepted (followed.room_next sane)]
    exact Nat.le_add_right _ _
  · intro commitment same there
    exact committed_accepting held submits same there
  · exact Item.Taken.accepting

/-- An accepted transaction leaves everything traced. -/
theorem accept (followed : Followed account base known g) (held : Items.Holds g.store item)
    (submits : item.submission = some s)
    (sane : Sane base (known ++ [(g.ledger.nextTx account nonce).hash])) :
    Followed account base (known ++ [(g.ledger.nextTx account nonce).hash])
      (g.accepting account nonce s) where
  tidy := followed.tidy
  few := by
    have few := followed.few
    rw [minedNonce_accepted (followed.room_next sane), List.length_append, List.length_singleton]
    split <;> omega
  offered := offered_accepting followed.offered
  recorded item phase hash held sent :=
    List.mem_append_left _ (followed.recorded item phase hash held sent)
  traced other held' := followed.traced_accepting held submits sane held'
  apart := followed.apart

/-- An item that was just sent is traced. -/
theorem traced_sent (followed : Followed account base known g) (held : Items.Holds g.store item)
    (submits : item.submission = some s) (mined : nonce = g.ledger.minedNonce account)
    (sane : Sane base (known ++ [(g.ledger.nextTx account nonce).hash])) :
    (item.record (g.ledger.nextTx account nonce) s.phase).advanced.Traced account
      (g.accepting account nonce s) := by
  have origin : (item.record (g.ledger.nextTx account nonce) s.phase).advanced.origin = item.origin :=
    Item.origin_record _ _ _
  have there : (g.accepting account nonce s).ledger.tx? (g.ledger.nextTx account nonce).hash =
      some ⟨g.ledger.nextTx account nonce, g.ledger.effective s⟩ :=
    (Ledger.tx?_after _).trans (if_pos rfl)
  have before := followed.traced item held
  rcases submission_cases submits with
    ⟨kind, status, commitment, same, rfl⟩ | ⟨kind, status, owner, owned, rfl⟩ | ⟨kind, status, rfl⟩
  · have committed : (g.accepting account nonce (.commit commitment)).ledger.commitments.contains
        commitment = true := by
      rw [Ground.ledger_accepting, Ledger.commitment_after_commit, decide_eq_true rfl, Bool.true_or]
    refine .commitSent (g.ledger.nextTx account nonce) ?_ ⟨?_, ?_, commitment, ?_, .inl committed⟩ ?_
      there rfl ?_
    · rw [Item.status_advanced, Item.kind_record, Item.status_record, kind, status]
      rfl
    · exact (Item.kind_eq_of_origin origin).trans kind
    · have phase : Phase.register ≠ (Submission.commit commitment).phase := nofun
      rw [Item.sent_advanced, Item.sent_record, if_neg phase]
      exact before.hidden status
    · rw [Item.commitment?_eq_of_origin origin]
      exact same
    · rw [Item.sent_advanced, Item.sent_record]
      exact if_pos rfl
    · rw [minedNonce_accepted (followed.room_next sane)]
      have effective : g.ledger.effective (.commit commitment) = true := rfl
      have signed : (g.ledger.nextTx account nonce).nonce = g.ledger.minedNonce account := mined
      rw [if_pos effective, signed]
      exact Nat.lt_succ_self _
  · refine .registerSent (g.ledger.nextTx account nonce)
      (g.ledger.effective (.register (item.registration owner))) ?_ ?_ ?_ there ?_
    · rw [Item.status_advanced, Item.kind_record, Item.status_record, kind, status]
      rfl
    · exact (Item.kind_eq_of_origin origin).trans kind
    · have phase : Phase.register = (Submission.register (item.registration owner)).phase := rfl
      rw [Item.sent_advanced, Item.sent_record, if_pos phase]
    · cases can : g.ledger.effective (.register (item.registration owner)) with
      | true => exact .inl rfl
      | false =>
        right
        apply Item.Taken.of_origin _ origin.symm
        apply Item.Taken.accepting
        obtain ⟨_, _, commitment, same, contained | taken⟩ := before.committed (.inr status)
        · rw [Item.commitment?_of_owner owned] at same
          have refused : ¬ g.ledger.canRegister (item.registration owner) = true :=
            Bool.eq_false_iff.1 can
          rw [Ledger.canRegister_iff, Option.some.inj same] at refused
          refine ⟨item, held, .inl rfl, ?_⟩
          cases known : g.ledger.name? item.fullName with
          | some record => rfl
          | none => exact absurd ⟨contained, known⟩ refused
        · exact taken
  · apply Item.Traced.renewSent
    · rw [Item.status_advanced, Item.kind_record, Item.status_record, kind, status]
      rfl
    · exact (Item.kind_eq_of_origin origin).trans kind

/-- The nonce on record for a commitment that waits is one that was used up. -/
theorem nonce_before (followed : Followed account base known g) (held : Items.Holds g.store item)
    (status : item.status = .commitSent) : ∃ nonce : UInt64, (item.sent .commit).nonce = some nonce ∧
      nonce.toNat < (g.ledger.minedNonce account).toNat := by
  cases followed.traced item held with
  | commitSent tx _ _ sent _ _ before => exact ⟨tx.nonce, by rw [sent], before⟩
  | initial status' | commitDone status' | registerSent _ _ status' | renewSent status' =>
    rw [status] at status'
    cases status'
  | rest terminal =>
    rw [status] at terminal
    cases terminal

theorem fit_sent (followed : Followed account base known g) (held : Items.Holds g.store item)
    (submits : item.submission = some s) (mined : nonce = g.ledger.minedNonce account)
    (sane : Sane base (known ++ [(g.ledger.nextTx account nonce).hash])) :
    Fit account (known ++ [(g.ledger.nextTx account nonce).hash]) (g.accepting account nonce s) item
      (item.record (g.ledger.nextTx account nonce) s.phase).advanced where
  held := held
  origin := Item.origin_record _ _ _
  recorded phase hash sent := by
    rw [Item.sent_advanced, Item.sent_record] at sent
    split at sent
    · cases sent
      exact List.mem_append_right _ (List.mem_singleton_self _)
    · exact List.mem_append_left _ (followed.recorded item phase hash held sent)
  traced := followed.traced_sent held submits mined sane
  apart waits other held' _ status' same := by
    -- The new nonce is the ledger's own, which no transaction before it has carried.
    obtain ⟨nonce', sent', before⟩ := followed.nonce_before held' status'
    rw [Item.sent_advanced, Item.sent_record] at same
    have phase : Phase.commit = s.phase := by
      rw [Item.status_advanced, Item.kind_record, Item.status_record] at waits
      rcases submission_cases submits with
        ⟨_, _, _, _, rfl⟩ | ⟨kind, status, _, _, rfl⟩ | ⟨kind, status, rfl⟩
      · rfl
      · rw [kind, status] at waits
        cases waits
      · rw [kind, status] at waits
        cases waits
    rw [if_pos phase, sent'] at same
    have signed : nonce' = nonce := Option.some.inj same
    rw [signed, mined] at before
    exact Nat.lt_irrefl _ before

theorem fit_failed (followed : Followed account base known g) (held : Items.Holds g.store item) :
    Fit account known g item item.failed where
  held := held
  origin := rfl
  recorded phase hash sent := by
    rw [Item.sent_failed] at sent
    exact followed.recorded item phase hash held sent
  traced := .rest (Status.isTerminal_onFailure _ _)
  apart status := by
    have terminal : item.failed.status.isTerminal = true := Status.isTerminal_onFailure _ _
    rw [status] at terminal
    cases terminal

theorem note (followed : Followed account base known g) (tx : TxHandle) :
    Followed account base known (g.noting tx) where
  tidy := Items.tidy_withNonce followed.tidy
  few := followed.few
  offered := offered_noting followed.offered
  recorded item phase hash held := followed.recorded item phase hash (Items.holds_withNonce.1 held)
  traced item held :=
    (followed.traced item (Items.holds_withNonce.1 held)).same_ledger rfl Item.Taken.noting
  apart a b heldA heldB :=
    followed.apart a b (Items.holds_withNonce.1 heldA) (Items.holds_withNonce.1 heldB)

theorem fit_noted (followed : Followed account base known g) (held : Items.Holds g.store item)
    (waits : item.Waits g tx) : Fit account known (g.noting tx) item item.advanced where
  held := Items.holds_withNonce.2 held
  origin := rfl
  recorded phase hash sent := by
    rw [Item.sent_advanced] at sent
    exact followed.recorded item phase hash held sent
  traced := ((followed.traced item held).advanced waits).same_ledger rfl Item.Taken.noting
  apart status := by
    obtain ⟨phase, _, _, awaits, _⟩ := waits
    unfold Item.awaited at awaits
    rw [Item.status_advanced] at status
    cases kind : item.kind <;> cases before : item.status <;> rw [kind, before] at awaits status <;>
      cases awaits <;> cases status

theorem write (followed : Followed account base known g) (fit : Fit account known g old item)
    (date : UInt64) : Followed account base known (g.withItem (item.dated date)) := by
  have origin : (item.dated date).origin = old.origin := fit.origin
  have fits : (item.dated date).Fits := (Item.fits_iff_of_origin origin).2 fit.held.1
  have writes : ∀ other, Items.Holds (g.withItem (item.dated date)).store other →
      other = item.dated date ∨ (other.index ≠ item.index ∧ Items.Holds g.store other) :=
    fun other held => (Items.holds_withItem fits).1 held
  have taken : ∀ {other : Item}, other.Taken g → other.Taken (g.withItem (item.dated date)) :=
    fun taken => taken.withItem fit.held origin
  constructor
  · exact Items.tidy_withItem followed.tidy fits
  · exact followed.few
  · rw [Ground.nextNonce_withItem]
    exact followed.offered
  · intro other phase hash held sent
    rcases writes other held with rfl | ⟨_, held⟩
    · rw [Item.sent_dated] at sent
      exact fit.recorded phase hash sent
    · exact followed.recorded other phase hash held sent
  · intro other held
    rcases writes other held with rfl | ⟨_, held⟩
    · exact (fit.traced.dated date).same_ledger rfl taken
    · exact (followed.traced other held).same_ledger rfl taken
  · intro a b heldA heldB statusA statusB same
    rcases writes a heldA with rfl | ⟨apartA, heldA⟩
    · rcases writes b heldB with rfl | ⟨apartB, heldB⟩
      · rfl
      · exact absurd same.symm (fit.apart statusA b heldB apartB statusB)
    · rcases writes b heldB with rfl | ⟨_, heldB⟩
      · exact absurd same (fit.apart statusB a heldA apartA statusA)
      · exact followed.apart a b heldA heldB statusA statusB same

/-- A new item has left no traces yet. -/
theorem insert (followed : Followed account base known g) (new : item.New)
    (absent : g.store.get? (Items.key item.index) = none) :
    Followed account base known (g.withItem item) := by
  have fresh := new.fresh
  have writes : ∀ other, Items.Holds (g.withItem item).store other →
      other = item ∨ (other.index ≠ item.index ∧ Items.Holds g.store other) :=
    fun other held => (Items.holds_withItem new.1).1 held
  constructor
  · exact Items.tidy_withItem followed.tidy new.1
  · exact followed.few
  · rw [Ground.nextNonce_withItem]
    exact followed.offered
  · intro other phase hash held sent
    rcases writes other held with rfl | ⟨_, held⟩
    · rw [fresh.2 phase] at sent
      cases sent
    · exact followed.recorded other phase hash held sent
  · intro other held
    rcases writes other held with rfl | ⟨_, held⟩
    · exact .initial fresh.1 (by rw [fresh.2]; rfl)
    · exact (followed.traced other held).same_ledger rfl fun taken => taken.insert new absent
  · intro a b heldA heldB statusA statusB same
    rcases writes a heldA with rfl | ⟨_, heldA⟩
    · rw [fresh.1] at statusA
      cases statusA
    · rcases writes b heldB with rfl | ⟨_, heldB⟩
      · rw [fresh.1] at statusB
        cases statusB
      · exact followed.apart a b heldA heldB statusA statusB same

end Followed

theorem Fit.insert (fit : Fit account known g old item) (new : other.New)
    (absent : g.store.get? (Items.key other.index) = none) :
    Fit account known (g.withItem other) old item where
  held := holds_insert fit.held new absent
  origin := fit.origin
  recorded := fit.recorded
  traced := fit.traced.same_ledger rfl fun taken => taken.insert new absent
  apart status third held apart status' := by
    rcases (Items.holds_withItem new.1).1 held with rfl | ⟨_, held⟩
    · rw [new.fresh.1] at status'
      cases status'
    · exact fit.apart status third held apart status'

/-- What is traced is carried through every scene of a queue with one account. -/
theorem followed_carries (profile : Profile) (base : Nat) :
    Carries (· = profile) (Sane base) (Followed profile.admin base) (Fit profile.admin) where
  sane_before {known later} sane := by
    have bounded := sane.2
    rw [List.length_append] at bounded
    exact ⟨(List.nodup_append.1 sane.1).1, by omega⟩
  tidy followed := followed.tidy
  place fit := ⟨fit.held, fit.origin⟩
  accept ours followed held submits sane := by
    subst ours
    exact ⟨followed.accept held submits sane, followed.fit_sent held submits rfl sane⟩
  fail _ followed held _ := followed.fit_failed held
  note _ followed held waits _ := ⟨followed.note _, followed.fit_noted held waits⟩
  write date followed fit := followed.write fit date
  insert followed new absent := followed.insert new absent
  ready_insert fit new absent := fit.insert new absent

/-- Where there are no items yet, an account that is in step has nothing to follow. -/
theorem followed_start (empty : g.store.scan Items.keyStart = []) (inStep : g.InStep account) :
    Followed account (g.ledger.minedNonce account).toNat [] g := by
  obtain ⟨tidy, none⟩ := Items.empty_of_scan empty
  constructor
  · exact tidy
  · exact Nat.le_refl _
  · exact ⟨_, inStep⟩
  · intro item phase hash held
    exact absurd held (none item)
  · intro item held
    exact absurd held (none item)
  · intro a b held
    exact absurd held (none a)

end Registrar
