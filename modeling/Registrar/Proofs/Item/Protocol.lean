import Registrar.Processor
import Registrar.Proofs.Backend.Performance
import Registrar.Proofs.Gateway.Replies
import Registrar.Proofs.Store.StoredItems

/-!
The protocol of an item as moves. What a worker has in hand tells how far the step for an item has
come, and `Move` lists all that may happen next, on a ground that others may change in the meantime.
`follows_process` says that the work on an item does nothing else, with any faults of the store and
of the gateway: each request that it makes is one of these moves or none.
-/

namespace Registrar

open Item (Phase Status)
open Ledger (Submission Profile)

namespace Item

/-- What the step for the item's status submits, if it submits anything. -/
def submission (item : Item) : Option Submission :=
  match item.kind, item.status with
  | .register, .initial =>
    (Processor.owner item).toOption.map fun account => .commit (item.registration account).commitment
  | .register, .commitDone =>
    (Processor.owner item).toOption.map fun account => .register (item.registration account)
  | .renew, .initial => some (.renew item.fullName item.renewDuration)
  | _, _ => none

/-- The phase whose transaction the step for the item's status waits for. -/
def awaited (item : Item) : Option Phase :=
  match item.kind, item.status with
  | .register, .commitSent => some .commit
  | .register, .registerSent => some .register
  | .renew, .renewSent => some .renew
  | _, _ => none

/-- The status after a step that succeeded, where there is one. -/
def Status.next (kind : Kind) (status : Status) : Status :=
  (Status.onSuccess kind status).getD status

/-- The item after a step that succeeded. -/
def advanced (item : Item) : Item := { item with status := Status.next item.kind item.status }

/-- The item after a step that failed. -/
def failed (item : Item) : Item :=
  { item with status := Status.onFailure item.kind item.status }

/-- The item as it is written at a date. -/
def dated (item : Item) (date : UInt64) : Item := { item with dateModified := date }

@[simp] theorem kind_record (item : Item) (tx : TxHandle) (phase : Phase) :
    (item.record tx phase).kind = item.kind := by
  cases phase <;> rfl

@[simp] theorem status_record (item : Item) (tx : TxHandle) (phase : Phase) :
    (item.record tx phase).status = item.status := by
  cases phase <;> rfl

theorem sent_record (item : Item) (tx : TxHandle) (phase other : Phase) :
    (item.record tx phase).sent other =
      if other = phase then ⟨some tx.hash, some tx.nonce⟩ else item.sent other := by
  cases phase <;> cases other <;> rfl

@[simp] theorem sent_dated (item : Item) (date : UInt64) (phase : Phase) :
    (item.dated date).sent phase = item.sent phase := by
  cases phase <;> rfl

@[simp] theorem sent_advanced (item : Item) (phase : Phase) :
    item.advanced.sent phase = item.sent phase := by
  cases phase <;> rfl

@[simp] theorem sent_failed (item : Item) (phase : Phase) :
    item.failed.sent phase = item.sent phase := by
  cases phase <;> rfl

/-- Whether nothing can come of the step for the item's status. -/
def Stuck (item : Item) (profile : Profile) (g : Ground) : Prop :=
  (item.submission = none ∧ item.awaited = none) ∨
    (item.submission.isSome = true ∧ ∃ error, profile.offers g = .error error) ∨
    ∃ phase, item.awaited = some phase ∧
      ∀ hash, (item.sent phase).hash = some hash → g.ledger.tx? hash = none

end Item

namespace Ground

/-- The ground with an item in the place of the one with its index. -/
def withItem (g : Ground) (item : Item) : Ground := { g with store := g.store.withItem item }

/-- The ground with the next nonce after a transaction on record. -/
def noting (g : Ground) (tx : TxHandle) : Ground :=
  { g with store := g.store.withNonce ⟨tx.sender, saturatingAdd tx.nonce 1⟩ }

/-- The ground after a submission was accepted. -/
def accepting (g : Ground) (sender : Address) (nonce : UInt64) (s : Submission) : Ground :=
  { g with ledger := g.ledger.after sender nonce s }

variable {g : Ground}

@[simp] theorem ledger_withItem (item : Item) : (g.withItem item).ledger = g.ledger := rfl

@[simp] theorem ledger_noting (tx : TxHandle) : (g.noting tx).ledger = g.ledger := rfl

@[simp] theorem ledger_accepting (sender : Address) (nonce : UInt64) (s : Submission) :
    (g.accepting sender nonce s).ledger = g.ledger.after sender nonce s := rfl

@[simp] theorem store_accepting (sender : Address) (nonce : UInt64) (s : Submission) :
    (g.accepting sender nonce s).store = g.store := rfl

end Ground

/-- What is in the hand of a worker. -/
inductive Hand where
  | free
  /-- An item as the store has it. -/
  | held (item : Item)
  /-- An item with a submission that is about to be signed with an offered nonce. -/
  | offered (item : Item) (s : Submission) (nonce : UInt64)
  /-- An item with its transaction as it was found. -/
  | found (item : Item) (tx : TxHandle)
  /-- An item with its transaction, which took effect. -/
  | mined (item : Item) (tx : TxHandle)
  /-- An item that is to be written back. -/
  | writing (item : Item)

/-- What may happen to what is in the hand. -/
inductive Move (profile : Profile) (faults : Faults) : Moves Hand where
  | offer {g item s nonce} :
      item.submission = some s → profile.offers g = .ok nonce →
      Move profile faults g (.held item) [] g (.offered item s nonce)
  | accept {g item s nonce} :
      nonce = g.ledger.minedNonce profile.admin →
      Move profile faults g (.offered item s nonce) [.ok (g.ledger.nextTx profile.admin nonce)]
        (g.accepting profile.admin nonce s)
        (.writing (item.record (g.ledger.nextTx profile.admin nonce) s.phase).advanced)
  | reject {g item s nonce error} :
      faults.gateway ∨
        (nonce ≠ g.ledger.minedNonce profile.admin ∧ ∃ detail, error = .rejected detail) →
      Move profile faults g (.offered item s nonce) [.error error] g (.writing item.failed)
  | find {g item phase hash tx} :
      item.awaited = some phase → (item.sent phase).hash = some hash → g.ledger.tx? hash = some tx →
      Move profile faults g (.held item) [] g (.found item tx.handle)
  | mined {g item tx} :
      g.ledger.landed tx.hash = true → Move profile faults g (.found item tx) [] g (.mined item tx)
  | lose {g item tx} :
      faults.gateway ∨ g.ledger.landed tx.hash = false →
      Move profile faults g (.found item tx) [] g (.writing item.failed)
  | note {g item tx} :
      Move profile faults g (.mined item tx) [] (g.noting tx) (.writing item.advanced)
  | giveUp {g item} :
      item.status.isTerminal = false → faults.gateway ∨ faults.store ∨ item.Stuck profile g →
      Move profile faults g (.held item) [] g (.writing item.failed)
  | write {g item} (date : UInt64) :
      Move profile faults g (.writing item) [] (g.withItem (item.dated date))
        (.held (item.dated date))
  | drop {g hand} :
      (faults.store ∨ ∃ item, hand = .writing item ∧
        g.store.contains (Items.key item.index) = false) →
      Move profile faults g hand [] g .free

/-- What an error in a step leaves in the hand: an item that goes on to be ended, or nothing if the
books failed. -/
def Ended (profile : Profile) (faults : Faults) (item : Item) (error : QueueError) (hand : Hand) :
    Prop :=
  (error.isInfrastructure = false ∧
      ∀ g, Chain (Move profile faults) g hand [] g (.writing item.failed)) ∨
    (error.isInfrastructure = true ∧ hand = .free)

variable {profile : Profile} {faults : Faults} {item : Item} {hand : Hand}

namespace Processor

open Ledger.Profile

variable {α β : Type}

/-- A part of the step for an item follows the hand: it succeeds with a hand that fits, or ends. -/
def Goes (profile : Profile) (faults : Faults) (item : Item) (fits : α → Hand → Prop)
    (attempt : Attempt Work QueueError α) (hand : Hand) : Prop :=
  attempt.run.Follows (profile.surroundings faults) (Move profile faults)
    (fun
      | .ok value => fits value
      | .error error => Ended profile faults item error) hand

theorem goes_pure {fits : α → Hand → Prop} {value : α} (h : fits value hand) :
    Goes profile faults item fits (pure value) hand := h

theorem Goes.bind {attempt : Attempt Work QueueError α} {f : α → Attempt Work QueueError β}
    {mid : α → Hand → Prop} {fits : β → Hand → Prop}
    (first : Goes profile faults item mid attempt hand)
    (later : ∀ value hand, mid value hand → Goes profile faults item fits (f value) hand) :
    Goes profile faults item fits (attempt >>= f) hand := by
  refine Program.Follows.bind first fun result hand fitting => ?_
  cases result with
  | ok value => exact later value hand fitting
  | error error => exact fitting

/-- A request to the gateway either fails and ends the step, or goes on. -/
theorem goes_onGateway {lift : GatewayError → QueueError} {request : Gateway.Request}
    {fits : request.Value → Hand → Prop} (ends : ∀ error, (lift error).isInfrastructure = false)
    (h : ∀ g answer g', profile.replies faults g request answer g' →
      (∃ value, answer = .ok value ∧ ∃ hand',
        Chain (Move profile faults) g hand (receipt (.gateway request) answer) g' hand' ∧
          fits value hand') ∨
      ((∃ error, answer = .error error) ∧
        Chain (Move profile faults) g hand (receipt (.gateway request) answer) g'
          (.writing item.failed))) :
    Goes profile faults item fits (Work.onGateway lift request) hand := by
  intro g answer g' replies
  rcases h g answer g' replies with ⟨value, rfl, hand', chain, fitting⟩ | ⟨⟨error, rfl⟩, chain⟩
  · exact ⟨hand', chain, fitting⟩
  · exact ⟨_, chain, .inl ⟨ends error, fun _ => .stay⟩⟩

theorem goes_bindController (live : item.status.isTerminal = false) :
    Goes profile faults item
      (fun bound hand => bound = (profile.connection, profile.bound) ∧ hand = .held item)
      bindController (.held item) := by
  unfold bindController
  have connect : Goes profile faults item
      (fun connection hand => connection = profile.connection ∧ hand = .held item)
      (Work.onGateway .gateway .connect) (.held item) := by
    refine goes_onGateway (fun _ => rfl) fun g answer g' replies => ?_
    obtain ⟨rfl, rfl | ⟨faulty, error, rfl⟩⟩ := replies_connect replies
    · exact .inl ⟨_, rfl, _, .stay, rfl, rfl⟩
    · exact .inr ⟨⟨error, rfl⟩, .one (.giveUp live (.inl faulty))⟩
  refine connect.bind ?_
  rintro _ _ ⟨rfl, rfl⟩
  have bind : Goes profile faults item
      (fun controller hand => controller = profile.bound ∧ hand = .held item)
      (Work.onGateway .gateway (.bindController profile.connection)) (.held item) := by
    refine goes_onGateway (fun _ => rfl) fun g answer g' replies => ?_
    obtain ⟨rfl, rfl | ⟨faulty, error, rfl⟩⟩ := replies_bindController replies
    · exact .inl ⟨_, rfl, _, .stay, rfl, rfl⟩
    · exact .inr ⟨⟨error, rfl⟩, .one (.giveUp live (.inl faulty))⟩
  refine bind.bind ?_
  rintro _ _ ⟨rfl, rfl⟩
  exact goes_pure ⟨rfl, rfl⟩

theorem owner_cases (item : Item) :
    (∃ account, owner item = .ok account) ∨
      ∃ error, owner item = .error error ∧ error.isInfrastructure = false := by
  unfold owner
  split
  · exact .inl ⟨_, rfl⟩
  · exact .inr ⟨_, rfl, rfl⟩

theorem owner_eq_ok {account : Address} :
    owner item = .ok account ↔ Fixed.parse item.ownerEthAddress = .ok account := by
  unfold owner
  split <;> simp_all

theorem toOption_owner (item : Item) :
    (owner item).toOption = (Fixed.parse item.ownerEthAddress).toOption := by
  unfold owner
  split <;> simp_all [Except.toOption]

/-- Asking for the options to sign with comes to an offer. -/
theorem goes_authOptions {phase : Phase} {s : Submission} {connection : Connection}
    (live : item.status.isTerminal = false) (submits : item.submission = some s) :
    Goes profile faults item
      (fun auth hand => ∃ nonce, auth = profile.auth nonce ∧ hand = .offered item s nonce)
      (inPhase phase (.authOptions connection)) (.held item) := by
  refine goes_onGateway (fun _ => rfl) fun g answer g' replies => ?_
  obtain ⟨rfl, ⟨nonce, offered, rfl⟩ | ⟨fails, why⟩⟩ := replies_authOptions replies
  · exact .inl ⟨_, rfl, _, .one (.offer submits offered), nonce, rfl, rfl⟩
  · refine .inr ⟨fails, .one (.giveUp live ?_)⟩
    rcases why with gateway | store | unknown
    · exact .inl gateway
    · exact .inr (.inl store)
    · exact .inr (.inr (.inr (.inl ⟨by rw [submits]; rfl, unknown⟩)))

/-- What becomes of an offered submission once it is submitted. -/
theorem chain_of_submitted {g g' : Ground} {s : Submission} {nonce : UInt64} {answer : Receipt}
    (submitted : profile.Submitted faults g nonce s answer g') :
    (∃ tx, answer = .ok tx ∧ ∃ hand',
      Chain (Move profile faults) g (.offered item s nonce) [answer] g' hand' ∧
        hand' = .writing (item.record tx s.phase).advanced) ∨
      ((∃ error, answer = .error error) ∧
        Chain (Move profile faults) g (.offered item s nonce) [answer] g' (.writing item.failed)) := by
  rcases submitted with ⟨same, rfl, rfl⟩ | ⟨rfl, error, rfl, why⟩
  · exact .inl ⟨_, rfl, _, .one (.accept same), rfl⟩
  · exact .inr ⟨⟨error, rfl⟩, .one (.reject why)⟩

theorem goes_sendCommit (kind : item.kind = .register) (status : item.status = .initial) :
    Goes profile faults item (fun tx hand => hand = .writing (item.record tx .commit).advanced)
      (sendCommit item) (.held item) := by
  have live : item.status.isTerminal = false := by rw [status]; rfl
  refine (goes_bindController live).bind ?_
  rintro _ _ ⟨rfl, rfl⟩
  have submission : item.submission = (owner item).toOption.map fun account =>
      .commit (item.registration account).commitment := by
    unfold Item.submission; rw [kind, status]
  dsimp only
  rcases owner_cases item with ⟨account, owned⟩ | ⟨error, owned, ends⟩
  · rw [owned] at submission ⊢
    have committing : Goes profile faults item
        (fun commitment hand =>
          commitment = (item.registration account).commitment ∧ hand = .held item)
        (inPhase .commit (.makeCommitment (item.registration account) profile.bound))
        (.held item) := by
      refine goes_onGateway (fun _ => rfl) fun g answer g' replies => ?_
      obtain ⟨rfl, rfl | ⟨faulty, error, rfl⟩⟩ := replies_makeCommitment replies
      · exact .inl ⟨_, rfl, _, .stay, rfl, rfl⟩
      · exact .inr ⟨⟨error, rfl⟩, .one (.giveUp live (.inl faulty))⟩
    refine committing.bind ?_
    rintro _ _ ⟨rfl, rfl⟩
    refine (goes_authOptions live submission).bind ?_
    rintro _ _ ⟨nonce, rfl, rfl⟩
    exact goes_onGateway (fun _ => rfl) fun g answer g' replies =>
      chain_of_submitted (replies_commit replies)
  · rw [owned] at submission ⊢
    have sends : item.awaited = none := by unfold Item.awaited; rw [kind, status]
    exact .inl ⟨ends, fun g => .one (.giveUp live (.inr (.inr (.inl ⟨submission, sends⟩))))⟩

theorem goes_sendRegister (kind : item.kind = .register) (status : item.status = .commitDone) :
    Goes profile faults item (fun tx hand => hand = .writing (item.record tx .register).advanced)
      (sendRegister item) (.held item) := by
  have live : item.status.isTerminal = false := by rw [status]; rfl
  refine (goes_bindController live).bind ?_
  rintro _ _ ⟨rfl, rfl⟩
  have submission : item.submission = (owner item).toOption.map fun account =>
      .register (item.registration account) := by
    unfold Item.submission; rw [kind, status]
  dsimp only
  rcases owner_cases item with ⟨account, owned⟩ | ⟨error, owned, ends⟩
  · rw [owned] at submission ⊢
    refine (goes_authOptions live submission).bind ?_
    rintro _ _ ⟨nonce, rfl, rfl⟩
    exact goes_onGateway (fun _ => rfl) fun g answer g' replies =>
      chain_of_submitted (replies_register replies)
  · rw [owned] at submission ⊢
    have sends : item.awaited = none := by unfold Item.awaited; rw [kind, status]
    exact .inl ⟨ends, fun g => .one (.giveUp live (.inr (.inr (.inl ⟨submission, sends⟩))))⟩

theorem goes_sendRenew (kind : item.kind = .renew) (status : item.status = .initial) :
    Goes profile faults item (fun tx hand => hand = .writing (item.record tx .renew).advanced)
      (sendRenew item) (.held item) := by
  have live : item.status.isTerminal = false := by rw [status]; rfl
  refine (goes_bindController live).bind ?_
  rintro _ _ ⟨rfl, rfl⟩
  have submission : item.submission = some (.renew item.fullName item.renewDuration) := by
    unfold Item.submission; rw [kind, status]
  dsimp only
  refine (goes_authOptions live submission).bind ?_
  rintro _ _ ⟨nonce, rfl, rfl⟩
  exact goes_onGateway (fun _ => rfl) fun g answer g' replies =>
    chain_of_submitted (replies_renew replies)

theorem goes_confirm {phase : Phase} (live : item.status.isTerminal = false)
    (waits : item.awaited = some phase) :
    Goes profile faults item (fun _ hand => hand = .writing item.advanced) (confirm item phase)
      (.held item) := by
  unfold confirm
  cases recorded : (item.sent phase).hash with
  | none =>
    refine .inl ⟨rfl, fun g => .one (.giveUp live (.inr (.inr (.inr (.inr ⟨phase, waits, ?_⟩)))))⟩
    intro hash other
    rw [recorded] at other
    cases other
  | some hash =>
    have connect : Goes profile faults item (fun _ hand => hand = .held item)
        (Work.onGateway .gateway .connect) (.held item) := by
      refine goes_onGateway (fun _ => rfl) fun g answer g' replies => ?_
      obtain ⟨rfl, rfl | ⟨faulty, error, rfl⟩⟩ := replies_connect replies
      · exact .inl ⟨_, rfl, _, .stay, rfl⟩
      · exact .inr ⟨⟨error, rfl⟩, .one (.giveUp live (.inl faulty))⟩
    refine connect.bind ?_
    rintro connection _ rfl
    have find : Goes profile faults item (fun tx hand => hand = .found item tx)
        (inPhase phase (.findTx connection hash)) (.held item) := by
      refine goes_onGateway (fun _ => rfl) fun g answer g' replies => ?_
      obtain ⟨rfl, ⟨tx, there, rfl⟩ | ⟨fails, why⟩⟩ := replies_findTx replies
      · exact .inl ⟨_, rfl, _, .one (.find waits recorded there), rfl⟩
      · refine .inr ⟨fails, .one (.giveUp live ?_)⟩
        rcases why with gateway | absent
        · exact .inl gateway
        · refine .inr (.inr (.inr (.inr ⟨phase, waits, ?_⟩)))
          intro other same
          rw [recorded] at same
          cases same
          exact absent
    refine find.bind ?_
    rintro tx _ rfl
    have await : Goes profile faults item
        (fun success hand => hand = if success then .mined item tx else .writing item.failed)
        (inPhase phase (.awaitMined connection tx)) (.found item tx) := by
      refine goes_onGateway (fun _ => rfl) fun g answer g' replies => ?_
      obtain ⟨rfl, ⟨rfl, landed⟩ | ⟨rfl | fails, why⟩⟩ := replies_awaitMined replies
      · exact .inl ⟨_, rfl, _, .one (.mined landed), rfl⟩
      · exact .inl ⟨_, rfl, _, .one (.lose why), rfl⟩
      · exact .inr ⟨fails, .one (.lose why)⟩
    refine await.bind ?_
    rintro success _ rfl
    cases success with
    | false => exact .inl ⟨rfl, fun g => .stay⟩
    | true =>
      rintro g answer g' (⟨rfl, rfl⟩ | ⟨faulty, ⟨error, rfl⟩, rfl⟩)
      · exact ⟨_, .one .note, rfl⟩
      · exact ⟨_, .one (.drop (.inl faulty)), .inr ⟨rfl, rfl⟩⟩

theorem advanced_eq {next : Status} (h : Status.onSuccess item.kind item.status = some next) :
    item.advanced = { item with status := next } := by
  unfold Item.advanced Status.next
  rw [h]
  rfl

/-- A step that sends puts its transaction on record, one that waits leaves the item alone, and
what comes of both is to be written back with the next status. -/
theorem goes_step {next : Status} (h : Status.onSuccess item.kind item.status = some next) :
    Goes profile faults item
      (fun moved hand => moved.kind = item.kind ∧ hand = .writing { moved with status := next })
      (step item) (.held item) := by
  have sent : ∀ {phase : Phase} {attempt : Attempt Work QueueError TxHandle},
      Goes profile faults item (fun tx hand => hand = .writing (item.record tx phase).advanced)
        attempt (.held item) →
      Goes profile faults item
        (fun moved hand => moved.kind = item.kind ∧ hand = .writing { moved with status := next })
        (do return item.record (← attempt) phase) (.held item) := by
    intro phase attempt goes
    refine goes.bind ?_
    rintro tx _ rfl
    refine goes_pure ⟨Item.kind_record item tx phase, ?_⟩
    have h' : Status.onSuccess (item.record tx phase).kind (item.record tx phase).status = some next := by
      rw [Item.kind_record, Item.status_record, h]
    rw [advanced_eq h']
  have waited : ∀ {phase : Phase}, item.status.isTerminal = false → item.awaited = some phase →
      Goes profile faults item
        (fun moved hand => moved.kind = item.kind ∧ hand = .writing { moved with status := next })
        (do confirm item phase; return item) (.held item) := by
    intro phase live waits
    refine (goes_confirm live waits).bind ?_
    rintro _ _ rfl
    exact goes_pure ⟨rfl, by rw [advanced_eq h]⟩
  unfold step
  split
  · rename_i kind status; exact sent (goes_sendCommit kind status)
  · rename_i kind status
    exact waited (by rw [status]; rfl) (by unfold Item.awaited; rw [kind, status])
  · rename_i kind status; exact sent (goes_sendRegister kind status)
  · rename_i kind status
    exact waited (by rw [status]; rfl) (by unfold Item.awaited; rw [kind, status])
  · rename_i kind status; exact sent (goes_sendRenew kind status)
  · rename_i kind status
    exact waited (by rw [status]; rfl) (by unfold Item.awaited; rw [kind, status])
  · rename_i kind status none none none none none none
    cases kindOf : item.kind <;> cases statusOf : item.status <;> rw [kindOf, statusOf] at h <;>
      simp_all [Status.onSuccess, Status.ahead]

/-- What the work on an item ends with: the item as it was last written, or an error of the
books. -/
def Rests : Except QueueError Unit × Item → Hand → Prop
  | (.ok (), final), hand => hand = .held final ∧ final.status.isTerminal = true
  | (.error _, _), hand => hand = .free

/-- Writing an item back, request by request. -/
theorem persist_eq (item : Item) :
    persist item = .ask .now fun (date : UInt64) =>
      .ask (.store (.exists (Items.key item.index))) fun
        | .error error => .done (.error (.store error), item.dated date)
        | .ok false => .done (.error (.itemNotFound item.index), item.dated date)
        | .ok true => .ask (.store (.put (Items.key item.index) (Items.encode (item.dated date)))) fun
          | .error error => .done (.error (.store error), item.dated date)
          | .ok () => .done (.ok (), item.dated date) := by
  refine congrArg (Program.ask _) (funext fun date => congrArg (Program.ask _) (funext fun answer => ?_))
  rcases answer with error | _ | _
  · rfl
  · rfl
  · refine congrArg (Program.ask _) (funext fun answer => ?_)
    rcases answer with error | _ <;> rfl

/-- A hand that comes to an item to be written ends with that item written, or free. -/
theorem follows_persist (h : ∀ g, Chain (Move profile faults) g hand [] g (.writing item)) :
    (persist item).Follows (profile.surroundings faults) (Move profile faults)
      (fun
        | (.ok (), written) => fun hand => (∃ date, written = item.dated date) ∧ hand = .held written
        | (.error _, _) => fun hand => hand = .free) hand := by
  rw [persist_eq]
  rintro g date g' rfl
  refine ⟨_, h _, ?_⟩
  rintro g answer g' (⟨rfl, rfl⟩ | ⟨faulty, ⟨error, rfl⟩, rfl⟩)
  · cases present : g.store.contains (Items.key item.index) with
    | false =>
      refine ⟨.free, .one (.drop (.inr ⟨item, rfl, present⟩)), ?_⟩
      simp only [Store.serve, present]
      rfl
    | true =>
      refine ⟨_, .stay, ?_⟩
      simp only [Store.serve, present]
      rintro g answer g' (⟨rfl, rfl⟩ | ⟨faulty, ⟨error, rfl⟩, rfl⟩)
      · exact ⟨_, .one (.write date), ⟨date, rfl⟩, rfl⟩
      · exact ⟨_, .one (.drop (.inl faulty)), rfl⟩
  · exact ⟨_, .one (.drop (.inl faulty)), rfl⟩

theorem follows_fail {error : QueueError} (h : Ended profile faults item error hand) :
    (fail item error).Follows (profile.surroundings faults) (Move profile faults) Rests hand := by
  unfold fail
  rcases h with ⟨ends, chain⟩ | ⟨books, rfl⟩
  · rw [ends]
    refine (follows_persist chain).mono (fun _ _ _ _ _ moved => moved) ?_
    rintro ⟨_ | ⟨⟩, written⟩ hand fitting
    · exact fitting
    · obtain ⟨⟨date, rfl⟩, rfl⟩ := fitting
      exact ⟨rfl, Status.isTerminal_onFailure _ _⟩
  · rw [books]
    rfl

theorem follows_driveThrough {ahead : List Status} {item : Item}
    (h : Status.ahead item.kind item.status = ahead) :
    (driveThrough ahead item).Follows (profile.surroundings faults) (Move profile faults) Rests
      (.held item) := by
  induction ahead generalizing item with
  | nil =>
    unfold driveThrough
    cases live : item.status.isTerminal with
    | true => exact ⟨rfl, live⟩
    | false =>
      have idle : item.submission = none ∧ item.awaited = none := by
        unfold Item.submission Item.awaited
        cases kind : item.kind <;> cases status : item.status <;>
          simp_all [Status.ahead, Status.isTerminal]
      have ends : Ended profile faults item
          (.invalidState item.index item.kind item.status) (.held item) :=
        .inl ⟨rfl, fun g => .one (.giveUp live (.inr (.inr (.inl idle))))⟩
      exact follows_fail ends
  | cons next rest ih =>
    unfold driveThrough
    have first : Status.onSuccess item.kind item.status = some next := by
      unfold Status.onSuccess
      rw [h]
      rfl
    refine Program.Follows.bind (goes_step first) ?_
    rintro (error | moved) hand fitting
    · exact follows_fail fitting
    · obtain ⟨kind, rfl⟩ := fitting
      refine (follows_persist fun _ => .stay).bind ?_
      rintro ⟨_ | ⟨⟩, written⟩ hand fitting
      · exact fitting
      · obtain ⟨⟨date, rfl⟩, rfl⟩ := fitting
        refine ih ?_
        have later := Status.ahead_next h
        rw [← kind] at later
        exact later

/-- What the work on an item answers: the status that the item rests in, or an error of the books. -/
def Answers : Except QueueError Status → Hand → Prop
  | .ok status, hand => ∃ final, hand = .held final ∧ final.status = status ∧ status.isTerminal = true
  | .error _, hand => hand = .free

theorem run_process {item : Item} (live : item.status.isTerminal = false) :
    (process false item).run =
      (drive item).bind fun (result, final) => .done (result.map fun _ => final.status) := by
  unfold process
  rw [live]
  refine (Program.bind_assoc (drive item) _ _).trans (congrArg _ (funext ?_))
  rintro ⟨error | ⟨⟩, final⟩ <;> rfl

/-- The work on an item keeps to the protocol. -/
theorem follows_process (item : Item) :
    (process false item).run.Follows (profile.surroundings faults) (Move profile faults) Answers
      (.held item) := by
  cases live : item.status.isTerminal with
  | true =>
    unfold process
    rw [live]
    exact ⟨item, rfl, rfl, live⟩
  | false =>
    rw [run_process live]
    have driven : (drive item).Follows (profile.surroundings faults) (Move profile faults) Rests
        (.held item) := follows_driveThrough rfl
    refine driven.bind ?_
    rintro ⟨error | ⟨⟩, final⟩ hand fitting
    · exact fitting
    · obtain ⟨rfl, terminal⟩ := fitting
      exact ⟨final, rfl, rfl, terminal⟩

end Processor

end Registrar
