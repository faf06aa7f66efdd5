import Registrar.Proofs.Item.Protocol
import Registrar.Proofs.Queue.WorkedItems

/-!
The conduct of the work on an item, whatever is behind it. A stage tells how far the step for an item
has come, by what was asked for and answered alone, and `Conducts` lists every request that may be
made at a stage with the stage that its answer leads to. `heeds_process` says that the work on an item
makes no other request: nothing is assumed of the gateway, and the store may fail at any of them.
-/

namespace Registrar

open Item (Phase Status)

namespace Item

/-- The phase whose transaction the step for the item's status sends. -/
def sending (item : Item) : Option Phase :=
  match item.kind, item.status with
  | .register, .initial => some .commit
  | .register, .commitDone => some .register
  | .renew, .initial => some .renew
  | _, _ => none

/-- The item completed without a look at the chain. -/
def skipped (item : Item) : Item := { item with status := .completed }

end Item

/-- Whether a request to the gateway is one that opens the way for the others. -/
def Gateway.Request.opens : Gateway.Request → Bool
  | .connect | .bindController _ | .authOptions _ => true
  | _ => false

/-- Whether a request can change nothing, whoever answers it. -/
def Work.Request.reads : Work.Request → Bool
  | .now | .store (.get _) | .store (.exists _) | .store (.scan _) | .store (.count _) => true
  | _ => false

/-- The store after an exchange. -/
def Exchange.on : Exchange → Store → Store
  | ⟨.store request, .ok _⟩, store => (store.serve request).2
  | _, store => store

/-- The key and the record that an exchange put into the store, if it put one there. -/
def Exchange.put? : Exchange → Option Store.Entry
  | ⟨.store (.put key record), .ok _⟩ => some (key, record)
  | _ => none

/-- The phase in which an exchange submits, and what the gateway answered, if it submits. -/
def Exchange.submitted : Exchange → Option (Phase × Receipt)
  | ⟨.gateway (.commit _ _ _), answer⟩ => some (.commit, answer)
  | ⟨.gateway (.register _ _ _), answer⟩ => some (.register, answer)
  | ⟨.gateway (.renew _ _ _ _), answer⟩ => some (.renew, answer)
  | _ => none

/-- How far the step for an item has come. -/
inductive Stage where
  | idle
  /-- An item as the store has it, and what was last promised for it. -/
  | held (item : Item) (promise : Option (Registration × Commitment))
  /-- An item whose transaction of a phase was accepted, but is not on record yet. -/
  | sent (item : Item) (phase : Phase) (tx : TxHandle)
  /-- An item with its transaction as it was found. -/
  | found (item : Item) (tx : TxHandle)
  /-- An item with its transaction, which took effect. -/
  | mined (item : Item) (tx : TxHandle)
  /-- An item whose transaction took effect, after that was noted. -/
  | noted (item : Item)
  /-- An item, and the one that is to be written in its place. -/
  | writing (item written : Item)

namespace Stage

/-- The item that is worked on, as the store has it. -/
def item : Stage → Option Item
  | .idle => none
  | .held item _ | .sent item _ _ | .found item _ | .mined item _ | .noted item
  | .writing item _ => some item

/-- Nothing of a step was begun. -/
def Rests (stage : Stage) : Prop := stage = .idle ∨ ∃ item promise, stage = .held item promise

def submitted (item : Item) (phase : Phase) : Receipt → Stage
  | .ok tx => .sent item phase tx
  | .error _ => .held item none

def fetched (item : Item) : Receipt → Stage
  | .ok tx => .found item tx
  | .error _ => .held item none

def awaited (item : Item) (tx : TxHandle) : Except GatewayError Bool → Stage
  | .ok true => .mined item tx
  | _ => .held item none

/-- The stage, unless the store failed. -/
def booked (stage : Stage) : Except StoreError Unit → Stage
  | .ok () => stage
  | .error _ => .idle

/-- The stage, unless the store failed or something is not there. -/
def checked (stage : Stage) : Except StoreError Bool → Stage
  | .ok true => stage
  | _ => .idle

/-- The item that may be written in the place of another one at a stage. -/
inductive Due (skip : Bool) : Stage → Item → Item → Prop where
  | failed {item promise} :
      item.status.isTerminal = false → Due skip (.held item promise) item item.failed
  | sent {item phase tx} :
      item.sending = some phase →
      Due skip (.sent item phase tx) item (item.record tx phase).advanced
  | noted {item phase} : item.awaited = some phase → Due skip (.noted item) item item.advanced
  | skipped {item promise} :
      skip = true → item.status.isTerminal = false →
      Due skip (.held item promise) item item.skipped

end Stage

/-- The requests of a step, with the stage that each answer leads to. -/
inductive Conducts (skip : Bool) : Stage → Exchange → Stage → Prop where
  | opens {item promise} {request : Gateway.Request} {answer : request.Answer} :
      request.opens = true →
      Conducts skip (.held item promise) ⟨.gateway request, answer⟩ (.held item promise)
  | promise {item promise account controller}
      {answer : (Gateway.Request.makeCommitment (item.registration account) controller).Answer} :
      item.sending = some .commit → Processor.owner item = .ok account →
      Conducts skip (.held item promise)
        ⟨.gateway (.makeCommitment (item.registration account) controller), answer⟩
        (.held item (answer.toOption.map (item.registration account, ·)))
  | commit {item registration commitment auth controller}
      {answer : (Gateway.Request.commit auth commitment controller).Answer} :
      item.sending = some .commit →
      Conducts skip (.held item (some (registration, commitment)))
        ⟨.gateway (.commit auth commitment controller), answer⟩ (.submitted item .commit answer)
  | register {item promise account auth controller}
      {answer : (Gateway.Request.register auth (item.registration account) controller).Answer} :
      item.sending = some .register → Processor.owner item = .ok account →
      Conducts skip (.held item promise)
        ⟨.gateway (.register auth (item.registration account) controller), answer⟩
        (.submitted item .register answer)
  | renew {item promise auth controller}
      {answer : (Gateway.Request.renew auth item.fullName item.renewDuration controller).Answer} :
      item.sending = some .renew →
      Conducts skip (.held item promise)
        ⟨.gateway (.renew auth item.fullName item.renewDuration controller), answer⟩
        (.submitted item .renew answer)
  | find {item promise phase hash connection}
      {answer : (Gateway.Request.findTx connection hash).Answer} :
      item.awaited = some phase → (item.sent phase).hash = some hash →
      Conducts skip (.held item promise) ⟨.gateway (.findTx connection hash), answer⟩
        (.fetched item answer)
  | await {item tx connection} {answer : (Gateway.Request.awaitMined connection tx).Answer} :
      Conducts skip (.found item tx) ⟨.gateway (.awaitMined connection tx), answer⟩
        (.awaited item tx answer)
  | note {item tx} {answer : Except StoreError Unit} :
      Conducts skip (.mined item tx)
        ⟨.store (.put (Nonce.key tx.sender)
          (Nonce.Record.layout.write ⟨tx.sender, saturatingAdd tx.nonce 1⟩)), answer⟩
        ((Stage.noted item).booked answer)
  | date {stage item written} {date : UInt64} :
      Stage.Due skip stage item written →
      Conducts skip stage ⟨.now, date⟩ (.writing item (written.dated date))
  | check {item written} {answer : Except StoreError Bool} :
      Conducts skip (.writing item written) ⟨.store (.exists (Items.key item.index)), answer⟩
        ((Stage.writing item written).checked answer)
  | write {item written} {answer : Except StoreError Unit} :
      Conducts skip (.writing item written)
        ⟨.store (.put (Items.key item.index) (Items.encode written)), answer⟩
        ((Stage.held written none).booked answer)

theorem Stage.item_of_due {skip : Bool} {stage : Stage} {item written : Item}
    (due : Due skip stage item written) : stage.item = some item := by
  cases due <;> rfl

theorem Conducts.hand {skip : Bool} {stage stage' : Stage} {exchange : Exchange}
    (conducts : Conducts skip stage exchange stage') : ∃ item, stage.item = some item := by
  cases conducts with
  | date due => exact ⟨_, Stage.item_of_due due⟩
  | _ => exact ⟨_, rfl⟩

/-- A request that only opens the way submits nothing. -/
theorem Exchange.opens_nothing {request : Gateway.Request} {answer : request.Answer}
    (opens : request.opens = true) : Exchange.submitted ⟨.gateway request, answer⟩ = none := by
  cases request <;> first | rfl | cases opens

/-- A submission is made for an item with its status. -/
theorem Conducts.of_submitted {skip : Bool} {stage stage' : Stage} {exchange : Exchange}
    (conducts : Conducts skip stage exchange stage') {phase : Phase} {receipt : Receipt}
    (h : exchange.submitted = some (phase, receipt)) :
    ∃ item promise, stage = .held item promise ∧ item.sending = some phase ∧
      stage' = .submitted item phase receipt := by
  cases conducts with
  | commit sends | register sends | renew sends =>
    cases h
    exact ⟨_, _, rfl, sends, rfl⟩
  | opens opens =>
    rw [Exchange.opens_nothing opens] at h
    cases h
  | _ => cases h

/-- How a stage may have been entered from another one along an exchange. -/
def Stage.Entered (skip : Bool) (stage : Stage) (exchange : Exchange) : Stage → Prop
  | .idle | .held _ none => True
  | .held item (some (registration, commitment)) =>
    (stage = .held item (some (registration, commitment)) ∧ ∃ (request : Gateway.Request)
      (answer : request.Answer), request.opens = true ∧ exchange = ⟨.gateway request, answer⟩) ∨
      (stage.item = some item ∧ ∃ controller,
        exchange = ⟨.gateway (.makeCommitment registration controller), .ok commitment⟩)
  | .sent item phase tx =>
    stage.item = some item ∧ item.sending = some phase ∧ exchange.submitted = some (phase, .ok tx)
  | .found item tx =>
    stage.item = some item ∧ ∃ phase hash connection, item.awaited = some phase ∧
      (item.sent phase).hash = some hash ∧ exchange = ⟨.gateway (.findTx connection hash), .ok tx⟩
  | .mined item tx =>
    stage = .found item tx ∧
      ∃ connection, exchange = ⟨.gateway (.awaitMined connection tx), .ok true⟩
  | .noted item => ∃ tx record, stage = .mined item tx ∧ exchange.put? = some (Nonce.key tx.sender, record)
  | .writing item written =>
    stage = .writing item written ∨
      ∃ due date, Due skip stage item due ∧ written = due.dated date

theorem Conducts.entered {skip : Bool} {stage stage' : Stage} {exchange : Exchange}
    (conducts : Conducts skip stage exchange stage') : Stage.Entered skip stage exchange stage' := by
  cases conducts with
  | @opens item promise request answer opens =>
    rcases promise with _ | ⟨registration, commitment⟩
    · trivial
    · exact .inl ⟨rfl, request, answer, opens, rfl⟩
  | @promise _ _ _ controller answer =>
    rcases answer with error | commitment
    · trivial
    · exact .inr ⟨rfl, controller, rfl⟩
  | @commit _ _ _ _ _ answer sends | @register _ _ _ _ _ answer sends
  | @renew _ _ _ _ answer sends =>
    rcases answer with error | tx
    · trivial
    · exact ⟨rfl, sends, rfl⟩
  | @find _ _ phase hash connection answer waits recorded =>
    rcases answer with error | tx
    · trivial
    · exact ⟨rfl, phase, hash, connection, waits, recorded, rfl⟩
  | @await _ _ connection answer =>
    rcases answer with error | _ | _
    · trivial
    · trivial
    · exact ⟨rfl, connection, rfl⟩
  | @note _ tx answer =>
    rcases answer with error | ⟨⟩
    · trivial
    · exact ⟨tx, _, rfl, rfl⟩
  | date due => exact .inr ⟨_, _, due, rfl⟩
  | @check _ _ answer =>
    rcases answer with error | _ | _
    · trivial
    · trivial
    · exact .inl rfl
  | @write _ _ answer => rcases answer with error | ⟨⟩ <;> trivial

/-- Moves of a mark over the ground, each along with one exchange. -/
abbrev Passes (σ : Type) : Type := Ground → σ → Exchange → Ground → σ → Prop

namespace Program

variable {σ α β : Type}

/-- Every request takes the mark one move along, and the program finishes with a value and a mark
that fit. -/
def Heeds (s : Surroundings) (move : Passes σ) (fits : α → σ → Prop) : Program Work α → σ → Prop
  | .done value, mark => fits value mark
  | .ask request next, mark => ∀ g answer g', s.Replies g request answer g' →
      ∃ mark', move g mark ⟨request, answer⟩ g' mark' ∧ (next answer).Heeds s move fits mark'

variable {s : Surroundings} {move other : Passes σ} {mark : σ}

theorem Heeds.bind {program : Program Work α} {f : α → Program Work β} {mid : α → σ → Prop}
    {fits : β → σ → Prop} (first : program.Heeds s move mid mark)
    (later : ∀ value mark, mid value mark → (f value).Heeds s move fits mark) :
    (program.bind f).Heeds s move fits mark := by
  induction program generalizing mark with
  | done value => exact later value mark first
  | ask request next ih =>
    intro g answer g' replies
    obtain ⟨mark', moved, rest⟩ := first g answer g' replies
    exact ⟨mark', moved, ih answer rest⟩

theorem Heeds.mono {program : Program Work α} {fits wider : α → σ → Prop}
    (moves : ∀ g mark exchange g' mark', move g mark exchange g' mark' →
      other g mark exchange g' mark')
    (widens : ∀ value mark, fits value mark → wider value mark)
    (heeds : program.Heeds s move fits mark) : program.Heeds s other wider mark := by
  induction program generalizing mark with
  | done value => exact widens value mark heeds
  | ask request next ih =>
    intro g answer g' replies
    obtain ⟨mark', moved, rest⟩ := heeds g answer g' replies
    exact ⟨mark', moves _ _ _ _ _ moved, ih answer rest⟩

end Program

/-- The conduct of a step as moves of its stage, whatever the ground is. -/
abbrev Conduct (skip : Bool) : Passes Stage := fun _ stage exchange _ stage' =>
  Conducts skip stage exchange stage'

/-- The stage that an error in a step leaves: the item is still in hand, or nothing is if the books
failed. -/
def Stage.Ended (item : Item) (error : QueueError) (stage : Stage) : Prop :=
  (error.isInfrastructure = false ∧ ∃ promise, stage = .held item promise) ∨
    (error.isInfrastructure = true ∧ stage = .idle)

namespace Processor

variable {s : Surroundings} {skip : Bool} {item : Item} {stage : Stage} {α β : Type}
  {promise : Option (Registration × Commitment)}

/-- A part of the step for an item keeps to its conduct: it succeeds at a stage that fits, or ends. -/
def Minds (s : Surroundings) (skip : Bool) (item : Item) (fits : α → Stage → Prop)
    (attempt : Attempt Work QueueError α) (stage : Stage) : Prop :=
  attempt.run.Heeds s (Conduct skip)
    (fun
      | .ok value => fits value
      | .error error => Stage.Ended item error) stage

theorem minds_pure {fits : α → Stage → Prop} {value : α} (h : fits value stage) :
    Minds s skip item fits (pure value) stage := h

theorem Minds.bind {attempt : Attempt Work QueueError α} {f : α → Attempt Work QueueError β}
    {mid : α → Stage → Prop} {fits : β → Stage → Prop} (first : Minds s skip item mid attempt stage)
    (later : ∀ value stage, mid value stage → Minds s skip item fits (f value) stage) :
    Minds s skip item fits (attempt >>= f) stage := by
  refine Program.Heeds.bind first fun result stage fitting => ?_
  cases result with
  | ok value => exact later value stage fitting
  | error error => exact fitting

/-- A request to the gateway goes on at the stage its answer leads to, or ends the step. -/
theorem minds_onGateway {lift : GatewayError → QueueError} {request : Gateway.Request}
    {fits : request.Value → Stage → Prop} {after : request.Answer → Stage}
    (ends : ∀ error, (lift error).isInfrastructure = false)
    (asks : ∀ answer, Conducts skip stage ⟨.gateway request, answer⟩ (after answer))
    (succeeds : ∀ value, fits value (after (.ok value)))
    (fails : ∀ error, ∃ promise, after (.error error) = .held item promise) :
    Minds s skip item fits (Work.onGateway lift request) stage := by
  intro g answer g' _
  refine ⟨after answer, asks answer, ?_⟩
  cases answer with
  | error error => exact .inl ⟨ends error, fails error⟩
  | ok value => exact succeeds value

/-- A request that only opens the way leaves the item in hand as it is. -/
theorem minds_opening {lift : GatewayError → QueueError} {request : Gateway.Request}
    (ends : ∀ error, (lift error).isInfrastructure = false) (opens : request.opens = true) :
    Minds s skip item (fun _ stage => stage = .held item promise) (Work.onGateway lift request)
      (.held item promise) :=
  @minds_onGateway s skip item _ _ _ _ (fun _ => .held item promise) ends (fun _ => .opens opens)
    (fun _ => rfl) fun _ => ⟨promise, rfl⟩

theorem minds_bindController :
    Minds s skip item (fun _ stage => stage = .held item promise) bindController
      (.held item promise) := by
  unfold bindController
  refine (minds_opening (fun _ => rfl) rfl).bind ?_
  rintro connection _ rfl
  refine (minds_opening (fun _ => rfl) rfl).bind ?_
  rintro controller _ rfl
  exact minds_pure rfl

/-- Nothing goes on where the owner's address cannot be read. -/
theorem minds_owner :
    Minds s skip item (fun account stage => owner item = .ok account ∧ stage = .held item promise)
      (Attempt.of (owner item)) (.held item promise) := by
  rcases owner_cases item with ⟨account, owned⟩ | ⟨error, owned, ends⟩
  · rw [owned]
    exact ⟨rfl, rfl⟩
  · rw [owned]
    exact .inl ⟨ends, promise, rfl⟩

theorem minds_sendCommit (sends : item.sending = some .commit) :
    Minds s skip item (fun tx stage => stage = .sent item .commit tx) (sendCommit item)
      (.held item none) := by
  unfold sendCommit
  refine minds_bindController.bind ?_
  rintro ⟨connection, controller⟩ _ rfl
  refine minds_owner.bind ?_
  rintro account _ ⟨owned, rfl⟩
  have promised : Minds s skip item
      (fun commitment stage => stage = .held item (some (item.registration account, commitment)))
      (inPhase .commit (.makeCommitment (item.registration account) controller))
      (.held item none) :=
    minds_onGateway (fun _ => rfl) (fun _ => .promise sends owned) (fun _ => rfl)
      fun _ => ⟨none, rfl⟩
  refine promised.bind ?_
  rintro commitment _ rfl
  refine (minds_opening (fun _ => rfl) rfl).bind ?_
  rintro auth _ rfl
  exact minds_onGateway (fun _ => rfl) (fun _ => .commit sends) (fun _ => rfl) fun _ => ⟨none, rfl⟩

theorem minds_sendRegister (sends : item.sending = some .register) :
    Minds s skip item (fun tx stage => stage = .sent item .register tx) (sendRegister item)
      (.held item none) := by
  unfold sendRegister
  refine minds_bindController.bind ?_
  rintro ⟨connection, controller⟩ _ rfl
  refine minds_owner.bind ?_
  rintro account _ ⟨owned, rfl⟩
  refine (minds_opening (fun _ => rfl) rfl).bind ?_
  rintro auth _ rfl
  exact minds_onGateway (fun _ => rfl) (fun _ => .register sends owned) (fun _ => rfl) fun _ => ⟨none, rfl⟩

theorem minds_sendRenew (sends : item.sending = some .renew) :
    Minds s skip item (fun tx stage => stage = .sent item .renew tx) (sendRenew item)
      (.held item none) := by
  unfold sendRenew
  refine minds_bindController.bind ?_
  rintro ⟨connection, controller⟩ _ rfl
  refine (minds_opening (fun _ => rfl) rfl).bind ?_
  rintro auth _ rfl
  exact minds_onGateway (fun _ => rfl) (fun _ => .renew sends) (fun _ => rfl) fun _ => ⟨none, rfl⟩

theorem minds_confirm {phase : Phase} (waits : item.awaited = some phase) :
    Minds s skip item (fun _ stage => stage = .noted item) (confirm item phase)
      (.held item none) := by
  unfold confirm
  cases recorded : (item.sent phase).hash with
  | none => exact .inl ⟨rfl, none, rfl⟩
  | some hash =>
    refine (minds_opening (fun _ => rfl) rfl).bind ?_
    rintro connection _ rfl
    have found : Minds s skip item (fun tx stage => stage = .found item tx)
        (inPhase phase (.findTx connection hash)) (.held item none) :=
      minds_onGateway (fun _ => rfl) (fun _ => .find waits recorded) (fun _ => rfl)
        fun _ => ⟨none, rfl⟩
    refine found.bind ?_
    rintro tx _ rfl
    have awaited : Minds s skip item (fun success stage => stage = .awaited item tx (.ok success))
        (inPhase phase (.awaitMined connection tx)) (.found item tx) :=
      minds_onGateway (fun _ => rfl) (fun _ => .await) (fun _ => rfl) fun _ => ⟨none, rfl⟩
    refine awaited.bind ?_
    rintro success _ rfl
    cases success with
    | false => exact .inl ⟨rfl, none, rfl⟩
    | true =>
      intro g answer g' _
      refine ⟨_, .note, ?_⟩
      rcases answer with error | ⟨⟩
      · exact .inr ⟨rfl, rfl⟩
      · rfl

/-- A step that succeeds comes to an item that may be written with the next status. -/
theorem minds_step {next : Status} (h : Status.onSuccess item.kind item.status = some next) :
    Minds s skip item
      (fun moved stage => moved.kind = item.kind ∧
        Stage.Due skip stage item { moved with status := next })
      (step item) (.held item none) := by
  have sent : ∀ {phase : Phase} {attempt : Attempt Work QueueError TxHandle},
      item.sending = some phase →
      Minds s skip item (fun tx stage => stage = .sent item phase tx) attempt (.held item none) →
      Minds s skip item
        (fun moved stage => moved.kind = item.kind ∧
          Stage.Due skip stage item { moved with status := next })
        (do return item.record (← attempt) phase) (.held item none) := by
    intro phase attempt sends minds
    refine minds.bind ?_
    rintro tx _ rfl
    refine minds_pure ⟨Item.kind_record item tx phase, ?_⟩
    have h' : Status.onSuccess (item.record tx phase).kind (item.record tx phase).status = some next := by
      rw [Item.kind_record, Item.status_record, h]
    rw [← advanced_eq h']
    exact .sent sends
  have waited : ∀ {phase : Phase}, item.awaited = some phase →
      Minds s skip item
        (fun moved stage => moved.kind = item.kind ∧
          Stage.Due skip stage item { moved with status := next })
        (do confirm item phase; return item) (.held item none) := by
    intro phase waits
    refine (minds_confirm waits).bind ?_
    rintro _ _ rfl
    refine minds_pure ⟨rfl, ?_⟩
    rw [← advanced_eq h]
    exact .noted waits
  unfold step
  split
  · rename_i kind status
    have sends : item.sending = some .commit := by unfold Item.sending; rw [kind, status]
    exact sent sends (minds_sendCommit sends)
  · rename_i kind status
    exact waited (by unfold Item.awaited; rw [kind, status])
  · rename_i kind status
    have sends : item.sending = some .register := by unfold Item.sending; rw [kind, status]
    exact sent sends (minds_sendRegister sends)
  · rename_i kind status
    exact waited (by unfold Item.awaited; rw [kind, status])
  · rename_i kind status
    have sends : item.sending = some .renew := by unfold Item.sending; rw [kind, status]
    exact sent sends (minds_sendRenew sends)
  · rename_i kind status
    exact waited (by unfold Item.awaited; rw [kind, status])
  · rename_i kind status none none none none none none
    cases kindOf : item.kind <;> cases statusOf : item.status <;> rw [kindOf, statusOf] at h <;>
      simp_all [Status.onSuccess, Status.ahead]

end Processor

theorem Item.index_record (item : Item) (tx : TxHandle) (phase : Phase) :
    (item.record tx phase).index = item.index := by
  cases phase <;> rfl

theorem Stage.Due.index {skip : Bool} {stage : Stage} {item written : Item}
    (due : Due skip stage item written) : written.index = item.index := by
  cases due with
  | failed | noted | skipped => rfl
  | sent => exact Item.index_record _ _ _

namespace Processor

variable {s : Surroundings} {skip : Bool} {item written : Item} {stage : Stage}

/-- Writing an item back ends with that item in hand, or with nothing. -/
theorem heeds_persist (due : Stage.Due skip stage item written) :
    (persist written).Heeds s (Conduct skip)
      (fun
        | (.ok (), last) => fun stage => (∃ date, last = written.dated date) ∧ stage = .held last none
        | (.error _, _) => fun stage => stage = .idle) stage := by
  rw [persist_eq, due.index]
  intro g date g' _
  refine ⟨_, .date due, ?_⟩
  intro g answer g' _
  refine ⟨_, .check, ?_⟩
  rcases answer with error | _ | _
  · rfl
  · rfl
  · intro g answer g' _
    refine ⟨_, .write, ?_⟩
    rcases answer with error | ⟨⟩
    · rfl
    · exact ⟨⟨date, rfl⟩, rfl⟩

/-- What the work on an item ends with: the item as it was last written, at rest, or nothing. -/
def Settles : Except QueueError Unit × Item → Stage → Prop
  | (.ok (), final), stage => ∃ promise, stage = .held final promise ∧ final.status.isTerminal = true
  | (.error _, _), stage => stage = .idle

theorem heeds_fail {error : QueueError} (live : item.status.isTerminal = false)
    (ended : Stage.Ended item error stage) :
    (fail item error).Heeds s (Conduct skip) Settles stage := by
  unfold fail
  rcases ended with ⟨ends, promise, rfl⟩ | ⟨books, rfl⟩
  · rw [ends]
    refine (heeds_persist (.failed live)).mono (fun _ _ _ _ _ moved => moved) ?_
    rintro ⟨_ | ⟨⟩, last⟩ stage fitting
    · exact fitting
    · obtain ⟨⟨date, rfl⟩, rfl⟩ := fitting
      exact ⟨none, rfl, Status.isTerminal_onFailure _ _⟩
  · rw [books]
    rfl

theorem heeds_driveThrough {ahead : List Status} {item : Item}
    (h : Status.ahead item.kind item.status = ahead) :
    (driveThrough ahead item).Heeds s (Conduct skip) Settles (.held item none) := by
  induction ahead generalizing item with
  | nil =>
    unfold driveThrough
    cases live : item.status.isTerminal with
    | true => exact ⟨none, rfl, live⟩
    | false =>
      have ended : Stage.Ended item (.invalidState item.index item.kind item.status)
          (.held item none) := .inl ⟨rfl, none, rfl⟩
      exact heeds_fail live ended
  | cons next rest ih =>
    unfold driveThrough
    have first : Status.onSuccess item.kind item.status = some next := by
      unfold Status.onSuccess
      rw [h]
      rfl
    have live : item.status.isTerminal = false := by
      cases kind : item.kind <;> cases status : item.status <;>
        simp_all [Status.ahead, Status.isTerminal]
    refine Program.Heeds.bind (minds_step first) ?_
    rintro (error | moved) stage fitting
    · exact heeds_fail live fitting
    · obtain ⟨kind, due⟩ := fitting
      refine (heeds_persist due).bind ?_
      rintro ⟨_ | ⟨⟩, last⟩ stage fitting
      · exact fitting
      · obtain ⟨⟨date, rfl⟩, rfl⟩ := fitting
        refine ih ?_
        have later := Status.ahead_next h
        rw [← kind] at later
        exact later

/-- What the work on an item comes to: the item at rest with the status that is answered, or nothing in
hand after an error of the books. -/
def Concludes : Except QueueError Status → Stage → Prop
  | .ok status, stage =>
    ∃ final promise, stage = .held final promise ∧ final.status = status ∧ status.isTerminal = true
  | .error _, stage => stage = .idle

/-- Processing an item that is skipped. -/
theorem run_process_skip {item : Item} (live : item.status.isTerminal = false) :
    (process true item).run =
      (persist item.skipped).bind fun (result, final) =>
        .done (result.map fun _ => final.status) := by
  unfold process
  rw [live]
  refine (Program.bind_assoc (persist item.skipped) _ _).trans (congrArg _ (funext ?_))
  rintro ⟨error | ⟨⟩, final⟩ <;> rfl

/-- The work on an item keeps to the conduct of its steps, and brings the item to rest unless the books
fail. -/
theorem heeds_conclude (item : Item) :
    (process skip item).run.Heeds s (Conduct skip) Concludes (.held item none) := by
  have settled : ∀ {program : Program Work (Except QueueError Unit × Item)},
      program.Heeds s (Conduct skip) Settles (.held item none) →
      (program.bind fun (result, final) => .done (result.map fun _ => final.status)).Heeds s
        (Conduct skip) Concludes (.held item none) := by
    intro program heeds
    refine heeds.bind ?_
    rintro ⟨error | ⟨⟩, final⟩ stage fitting
    · exact fitting
    · obtain ⟨promise, rfl, terminal⟩ := fitting
      exact ⟨final, promise, rfl, rfl, terminal⟩
  cases live : item.status.isTerminal with
  | true =>
    unfold process
    rw [live]
    exact ⟨item, none, rfl, rfl, live⟩
  | false =>
    cases skip with
    | false =>
      rw [run_process live]
      exact settled (heeds_driveThrough rfl)
    | true =>
      rw [run_process_skip live]
      refine settled ((heeds_persist (.skipped rfl live)).mono (fun _ _ _ _ _ moved => moved) ?_)
      rintro ⟨_ | ⟨⟩, last⟩ stage fitting
      · exact fitting
      · obtain ⟨⟨date, rfl⟩, rfl⟩ := fitting
        exact ⟨none, rfl, rfl⟩

/-- The work on an item keeps to the conduct of its steps, and leaves nothing half done. -/
theorem heeds_process (item : Item) :
    (process skip item).run.Heeds s (Conduct skip) (fun _ stage => stage.Rests) (.held item none) := by
  refine (heeds_conclude item).mono (fun _ _ _ _ _ moved => moved) ?_
  rintro (error | status) stage fitting
  · exact .inl fitting
  · obtain ⟨final, promise, rfl, _⟩ := fitting
    exact .inr ⟨final, promise, rfl⟩

end Processor

end Registrar
