import Registrar.Proofs.Chronicle.History
import Registrar.Proofs.Item.Backing

/-!
Status and transactions in accord. What is on record for an item is what its kind and its status say:
nothing of a phase that it has not come to, both hash and nonce of one that it has passed, and nothing
of the phases of the other kind. Every record that is ever put under an index is so, and no step that
begins from one can fail for want of a transaction or for a status that is foreign to the item's kind.
-/

namespace Registrar

open Item (Kind Phase Status)

namespace Item

/-- The phases whose transactions are on record for all items of a kind with a status. -/
def Status.made : Kind → Status → List Phase
  | .register, .commitSent | .register, .commitDone | .register, .registerError => [.commit]
  | .register, .registerSent | .register, .error => [.commit, .register]
  | .renew, .renewSent => [.renew]
  | _, _ => []

/-- The phases of which nothing is on record for any item of a kind with a status. -/
def Status.missing : Kind → Status → List Phase
  | _, .initial => [.commit, .register, .renew]
  | .register, .commitSent | .register, .commitDone | .register, .registerError
  | .register, .commitError => [.register, .renew]
  | .register, _ => [.renew]
  | .renew, _ => [.commit, .register]

/-- Both parts of a transaction are on record. -/
def Sent.Made (sent : Sent) : Prop := sent.hash.isSome = true ∧ sent.nonce.isSome = true

/-- What is on record for an item is what its kind and its status say. -/
structure Agrees (item : Item) : Prop where
  paired : ∀ phase, (item.sent phase).hash.isSome = (item.sent phase).nonce.isSome
  belongs : item.status.belongsTo item.kind = true
  made : ∀ phase ∈ Status.made item.kind item.status, (item.sent phase).Made
  missing : ∀ phase ∈ Status.missing item.kind item.status, item.sent phase = .nothing

/-- An item goes to a status that asks for no more than the one before. -/
structure Status.Eases (kind : Kind) (status next : Status) : Prop where
  belongs : next.belongsTo kind = true
  made : made kind next ⊆ made kind status
  missing : missing kind next ⊆ missing kind status

theorem Status.eases_failure {kind : Kind} {status : Status} (belongs : status.belongsTo kind = true) :
    Eases kind status (onFailure kind status) := by
  cases kind <;> cases status <;>
    first
    | exact ⟨rfl, by decide, by decide⟩
    | cases belongs

theorem Status.eases_completed (kind : Kind) (status : Status) : Eases kind status .completed := by
  cases kind <;> cases status <;> exact ⟨rfl, by decide, by decide⟩

variable {skip : Bool} {item next : Item} {phase : Phase}

theorem sending_cases (sends : item.sending = some phase) :
    (item.kind = .register ∧ item.status = .initial ∧ phase = .commit) ∨
      (item.kind = .register ∧ item.status = .commitDone ∧ phase = .register) ∨
      (item.kind = .renew ∧ item.status = .initial ∧ phase = .renew) := by
  unfold sending at sends
  split at sends <;> cases sends <;> simp_all

theorem awaited_cases (waits : item.awaited = some phase) :
    (item.kind = .register ∧ item.status = .commitSent ∧ phase = .commit) ∨
      (item.kind = .register ∧ item.status = .registerSent ∧ phase = .register) ∨
      (item.kind = .renew ∧ item.status = .renewSent ∧ phase = .renew) := by
  unfold awaited at waits
  split at waits <;> cases waits <;> simp_all

/-- A status that the confirmation of a transaction leads to asks for no more than the one before. -/
theorem eases_confirmed {status : Status} (waits : item.awaited = some phase)
    (first : Status.onSuccess item.kind item.status = some status) :
    Status.Eases item.kind item.status status := by
  obtain ⟨kind, before, _⟩ | ⟨kind, before, _⟩ | ⟨kind, before, _⟩ := awaited_cases waits <;>
    rw [kind, before] at first ⊢ <;> cases first <;> exact ⟨rfl, by decide, by decide⟩

/-- A status that the submission of a transaction leads to asks for that transaction too. -/
theorem asks_sent {status : Status} (sends : item.sending = some phase)
    (first : Status.onSuccess item.kind item.status = some status) :
    status.belongsTo item.kind = true ∧
      Status.made item.kind status ⊆ phase :: Status.made item.kind item.status ∧
      Status.missing item.kind status ⊆ Status.missing item.kind item.status ∧
      phase ∉ Status.missing item.kind status := by
  obtain ⟨kind, before, rfl⟩ | ⟨kind, before, rfl⟩ | ⟨kind, before, rfl⟩ := sending_cases sends <;>
    rw [kind, before] at first ⊢ <;> cases first <;> exact ⟨rfl, by decide, by decide, by decide⟩

theorem New.agrees (new : item.New) : item.Agrees := by
  obtain ⟨status, nothing⟩ := new.fresh
  refine ⟨fun phase => ?_, ?_, fun phase there => ?_, fun phase _ => nothing phase⟩
  · rw [nothing]
    rfl
  · rw [status]
    cases item.kind <;> rfl
  · rw [status] at there
    cases kind : item.kind <;> rw [kind] at there <;> cases there

/-- An item with the same transactions and a status that asks for no more agrees as well. -/
theorem Agrees.eased (agrees : item.Agrees) (kind : next.kind = item.kind)
    (sent : ∀ phase, next.sent phase = item.sent phase)
    (eases : Status.Eases item.kind item.status next.status) : next.Agrees where
  paired phase := sent phase ▸ agrees.paired phase
  belongs := kind ▸ eases.belongs
  made phase there := sent phase ▸ agrees.made phase (eases.made (kind ▸ there))
  missing phase there := (sent phase).trans (agrees.missing phase (eases.missing (kind ▸ there)))

theorem Advances.agrees (advances : item.Advances skip next) (agrees : item.Agrees) : next.Agrees := by
  cases advances with
  | @sent phase next sends _ noted first =>
    obtain ⟨belongs, made, missing, apart⟩ := asks_sent sends first
    refine ⟨fun other => ?_, noted.kind.symm ▸ belongs, fun other there => ?_, fun other there => ?_⟩
    · by_cases own : other = phase
      · rw [own, noted.hash, noted.nonce]
      · rw [noted.others other own]
        exact agrees.paired other
    · rw [noted.kind] at there
      by_cases own : other = phase
      · rw [own]
        exact ⟨noted.hash, noted.nonce⟩
      · rw [noted.others other own]
        exact agrees.made other ((List.mem_cons.1 (made there)).resolve_left own)
    · rw [noted.kind] at there
      have own : other ≠ phase := fun same => apart (same ▸ there)
      rw [noted.others other own]
      exact agrees.missing other (missing there)
  | confirmed waits first =>
    exact agrees.eased rfl (fun phase => by cases phase <;> rfl) (eases_confirmed waits first)
  | failed live =>
    exact agrees.eased rfl (fun phase => by cases phase <;> rfl)
      (Status.eases_failure agrees.belongs)
  | skipped =>
    exact agrees.eased rfl (fun phase => by cases phase <;> rfl) (Status.eases_completed _ _)

/-- The transaction of the item's last phase is on record. -/
def LastMade (item : Item) : Prop := (item.sent item.kind.lastPhase).Made

/-- An item that is completed by its last step has the transaction of its last phase on record. -/
theorem Advances.lastMade (advances : item.Advances false next) (agrees : item.Agrees)
    (completed : next.status = .completed) : next.LastMade := by
  cases advances with
  | sent sends _ _ first =>
    rw [completed] at first
    obtain ⟨kind, before, _⟩ | ⟨kind, before, _⟩ | ⟨kind, before, _⟩ := sending_cases sends <;>
      rw [kind, before] at first <;> cases first
  | confirmed waits first =>
    dsimp only at completed
    rw [completed] at first
    have last : item.kind.lastPhase ∈ Status.made item.kind item.status := by
      obtain ⟨kind, before, _⟩ | ⟨kind, before, _⟩ | ⟨kind, before, _⟩ := awaited_cases waits <;>
        rw [kind, before] at first ⊢ <;> first | decide | cases first
    have made := agrees.made _ last
    unfold LastMade
    cases kind : item.kind <;> rw [kind] at made <;> exact made
  | failed live => exact absurd completed (Status.onFailure_ne_completed live)
  | skipped absent => cases absent

/-- Every item in a history agrees, and one that was completed by its last step has the transaction of
its last phase on record. -/
theorem Path.agrees {asked : Asked} {index : Int64} {history : List (Bool × Item)}
    (path : Path asked index history) : ∀ entry ∈ history,
      entry.2.Agrees ∧ (entry.2.status = .completed → entry.1 = false → entry.2.LastMade) := by
  refine path.next.induction _ _ ?_ ?_
  · rintro ⟨_, before⟩ ⟨skip, after⟩ ⟨_, advances⟩ ⟨agrees, _⟩
    refine ⟨advances.agrees agrees, fun completed (off : skip = false) => ?_⟩
    subst off
    exact advances.lastMade agrees completed
  · intro some
    have new := (path.first _ (List.head?_eq_some_head some)).1.new
    refine ⟨new.agrees, fun completed => ?_⟩
    rw [new.initial.1] at completed
    cases completed

end Item

/-- Whether an error says that an item was not fit for the step that began with it. -/
def QueueError.isPrecondition : QueueError → Bool
  | .emptyTxHash _ | .invalidState _ _ _ => true
  | _ => false

namespace Program

variable {I : Interface} {α β : Type} {allowed : α → Prop}

/-- Whatever it is answered, the program finishes with nothing but what is allowed. -/
def Ends (allowed : α → Prop) : Program I α → Prop
  | .done value => allowed value
  | .ask _ next => ∀ answer, (next answer).Ends allowed

theorem Ends.mono {program : Program I α} {wanted : α → Prop} (ends : program.Ends allowed)
    (enough : ∀ value, allowed value → wanted value) : program.Ends wanted := by
  induction program with
  | done value => exact enough value ends
  | ask request next ih => exact fun answer => ih answer (ends answer)

theorem Ends.bind {program : Program I α} {f : α → Program I β} {wanted : β → Prop}
    (ends : program.Ends allowed) (later : ∀ value, allowed value → (f value).Ends wanted) :
    (program.bind f).Ends wanted := by
  induction program with
  | done value => exact later value ends
  | ask request next ih => exact fun answer => ih answer (ends answer)

/-- What comes after a program matters for the values only that it may finish with. -/
theorem Ends.bind_congr {program : Program I α} {f g : α → Program I β} (ends : program.Ends allowed)
    (same : ∀ value, allowed value → f value = g value) : program.bind f = program.bind g := by
  induction program with
  | done value => exact same value ends
  | ask request next ih =>
    exact congrArg (Program.ask request) (funext fun answer => ih answer (ends answer))

end Program

namespace Processor

variable {item : Item} {α β : Type}

/-- An attempt that never fails for an item that is not fit for it, and succeeds with what fits. -/
def Apt (fits : α → Prop) (attempt : Attempt Work QueueError α) : Prop :=
  attempt.run.Ends fun
    | .ok value => fits value
    | .error error => error.isPrecondition = false

theorem Apt.bind {attempt : Attempt Work QueueError α} {f : α → Attempt Work QueueError β}
    {mid : α → Prop} {fits : β → Prop} (first : Apt mid attempt)
    (later : ∀ value, mid value → Apt fits (f value)) : Apt fits (attempt >>= f) := by
  refine Program.Ends.bind first fun result ended => ?_
  cases result with
  | ok value => exact later value ended
  | error error => exact ended

theorem apt_onGateway {lift : GatewayError → QueueError} (request : Gateway.Request)
    (ends : ∀ error, (lift error).isPrecondition = false) :
    Apt (fun _ => True) (Work.onGateway lift request) := by
  intro answer
  cases answer with
  | error error => exact ends error
  | ok value => trivial

theorem apt_inPhase (phase : Phase) (request : Gateway.Request) :
    Apt (fun _ => True) (inPhase phase request) :=
  apt_onGateway request fun _ => rfl

theorem apt_bindController : Apt (fun _ => True) bindController := by
  unfold bindController
  refine (apt_onGateway _ fun _ => rfl).bind fun connection _ => ?_
  exact (apt_onGateway _ fun _ => rfl).bind fun controller _ => trivial

theorem apt_owner : Apt (fun _ => True) (Attempt.of (I := Work) (owner item)) := by
  unfold owner
  split <;> trivial

theorem apt_sendCommit : Apt (fun _ => True) (sendCommit item) := by
  unfold sendCommit
  refine apt_bindController.bind fun _ _ => apt_owner.bind fun _ _ => ?_
  refine (apt_inPhase _ _).bind fun _ _ => (apt_inPhase _ _).bind fun _ _ => ?_
  exact apt_inPhase _ _

theorem apt_sendRegister : Apt (fun _ => True) (sendRegister item) := by
  unfold sendRegister
  refine apt_bindController.bind fun _ _ => apt_owner.bind fun _ _ => ?_
  exact (apt_inPhase _ _).bind fun _ _ => apt_inPhase _ _

theorem apt_sendRenew : Apt (fun _ => True) (sendRenew item) := by
  unfold sendRenew
  exact apt_bindController.bind fun _ _ => (apt_inPhase _ _).bind fun _ _ => apt_inPhase _ _

/-- A transaction whose hash is on record is waited for. -/
theorem apt_confirm {phase : Phase} (made : (item.sent phase).Made) :
    Apt (fun _ => True) (confirm item phase) := by
  unfold confirm
  cases recorded : (item.sent phase).hash with
  | none =>
    have there := made.1
    rw [recorded] at there
    cases there
  | some hash =>
    refine (apt_onGateway _ fun _ => rfl).bind fun _ _ => (apt_inPhase _ _).bind fun tx _ => ?_
    refine (apt_inPhase _ _).bind fun success _ => ?_
    cases success with
    | false =>
      change (QueueError.phaseFailed phase _).isPrecondition = false
      rfl
    | true =>
      intro answer
      rcases answer with error | ⟨⟩
      · change (QueueError.nonce _).isPrecondition = false
        rfl
      · trivial

/-- A step from an item that agrees comes to one that agrees as well, or fails for another reason than
that the item was not fit for it. -/
theorem apt_step {next : Status} (agrees : item.Agrees)
    (first : Status.onSuccess item.kind item.status = some next) :
    Apt (fun moved => moved.kind = item.kind ∧
      ∀ date, (({ moved with status := next } : Item).dated date).Agrees) (step item) := by
  have sent : ∀ {phase : Phase} {attempt : Attempt Work QueueError TxHandle},
      item.sending = some phase → Apt (fun _ => True) attempt →
      Apt (fun moved => moved.kind = item.kind ∧
        ∀ date, (({ moved with status := next } : Item).dated date).Agrees)
        (do return item.record (← attempt) phase) := by
    intro phase attempt sends apt
    refine apt.bind fun tx _ => ⟨Item.kind_record item tx phase, fun date => ?_⟩
    have unsent : phase ∈ Status.missing item.kind item.status := by
      obtain ⟨kind, before, rfl⟩ | ⟨kind, before, rfl⟩ | ⟨kind, before, rfl⟩ :=
        Item.sending_cases sends <;> rw [kind, before] <;> decide
    have advances : item.Advances false
        { item.record tx phase with status := next, dateModified := date } :=
      .sent sends (agrees.missing phase unsent) (Item.sends_record item tx phase next date) first
    exact advances.agrees agrees
  have waited : ∀ {phase : Phase}, item.awaited = some phase →
      Apt (fun moved => moved.kind = item.kind ∧
        ∀ date, (({ moved with status := next } : Item).dated date).Agrees)
        (do confirm item phase; return item) := by
    intro phase waits
    have made : phase ∈ Status.made item.kind item.status := by
      obtain ⟨kind, before, rfl⟩ | ⟨kind, before, rfl⟩ | ⟨kind, before, rfl⟩ :=
        Item.awaited_cases waits <;> rw [kind, before] <;> decide
    refine (apt_confirm (agrees.made phase made)).bind fun _ _ => ⟨rfl, fun date => ?_⟩
    have advances : item.Advances false { item with status := next, dateModified := date } :=
      .confirmed waits first
    exact advances.agrees agrees
  unfold step
  split
  · rename_i kind status
    exact sent (by unfold Item.sending; rw [kind, status]) apt_sendCommit
  · rename_i kind status
    exact waited (by unfold Item.awaited; rw [kind, status])
  · rename_i kind status
    exact sent (by unfold Item.sending; rw [kind, status]) apt_sendRegister
  · rename_i kind status
    exact waited (by unfold Item.awaited; rw [kind, status])
  · rename_i kind status
    exact sent (by unfold Item.sending; rw [kind, status]) apt_sendRenew
  · rename_i kind status
    exact waited (by unfold Item.awaited; rw [kind, status])
  · rename_i kind status none none none none none none
    cases kindOf : item.kind <;> cases statusOf : item.status <;> rw [kindOf, statusOf] at first <;>
      simp_all [Status.onSuccess, Status.ahead]

/-- A step for an item that agrees never fails for an item that is not fit for it. -/
theorem apt_moveNext (agrees : item.Agrees) : Apt (fun _ => True) (moveNext item) := by
  unfold moveNext
  cases live : item.status.isTerminal with
  | true => trivial
  | false =>
    obtain ⟨next, first⟩ : ∃ next, Status.onSuccess item.kind item.status = some next := by
      have belongs := agrees.belongs
      cases kind : item.kind <;> cases status : item.status <;> rw [kind, status] at belongs <;>
        rw [status] at live <;>
        first
        | exact ⟨_, rfl⟩
        | exact absurd belongs (by decide)
        | exact absurd live (by decide)
    refine (apt_step agrees first).bind fun moved _ => ?_
    rw [first]
    trivial

/-- What is done about a step that failed. -/
abbrev Handler : Type := Item → QueueError → Program Work (Except QueueError Unit × Item)

/-- After a failed step: `handle` an item that was not fit for it, and do as always about all else. -/
def failBy (handle : Handler) : Handler := fun item error =>
  if error.isPrecondition then handle item error else fail item error

/-- The driving of an item with another `Handler` of items that are not fit for a step. -/
def driveThroughBy (handle : Handler) :
    List Status → Item → Program Work (Except QueueError Unit × Item)
  | [], item =>
    if item.status.isTerminal then .done (.ok (), item)
    else failBy handle item (.invalidState item.index item.kind item.status)
  | next :: ahead, item => do
    match ← (step item).run with
    | .error error => failBy handle item error
    | .ok moved =>
      match ← persist { moved with status := next } with
      | (.error error, written) => return (.error error, written)
      | (.ok (), written) => driveThroughBy handle ahead written

/-- The processing of an item with another `Handler` of items that are not fit for a step. -/
def processBy (handle : Handler) (skip : Bool) (item : Item) : Attempt Work QueueError Status := do
  if item.status.isTerminal then return item.status
  let (result, final) ←
    if skip then persist { item with status := .completed }
    else driveThroughBy handle (Status.ahead item.kind item.status) item
  Attempt.of result
  return final.status

/-- Handled as always, nothing is another way. -/
theorem processBy_fail : processBy fail = process := by
  have always : failBy fail = fail := funext fun item => funext fun error => ite_self _
  have drives : ∀ ahead item, driveThroughBy fail ahead item = driveThrough ahead item := by
    intro ahead
    induction ahead with
    | nil =>
      intro item
      unfold driveThroughBy driveThrough
      rw [always]
    | cons next ahead ih =>
      intro item
      unfold driveThroughBy driveThrough
      refine bind_congr fun result => ?_
      cases result with
      | error error => exact congrFun (congrFun always item) error
      | ok moved =>
        refine bind_congr fun outcome => ?_
        obtain ⟨result, written⟩ := outcome
        cases result with
        | error error => rfl
        | ok => exact ih written
  funext skip item
  unfold processBy process drive
  rw [drives]

theorem ends_persist (item : Item) :
    (persist item).Ends fun written => ∃ date, written.2 = item.dated date := by
  rw [persist_eq]
  intro date answer
  rcases answer with error | _ | _
  · exact ⟨date, rfl⟩
  · exact ⟨date, rfl⟩
  · intro answer
    rcases answer with error | ⟨⟩ <;> exact ⟨date, rfl⟩

/-- An item that agrees is driven the same way, whatever would be done about one that is not fit for a
step. -/
theorem driveThroughBy_eq (handle : Handler) {ahead : List Status} (agrees : item.Agrees)
    (h : Status.ahead item.kind item.status = ahead) :
    driveThroughBy handle ahead item = driveThrough ahead item := by
  induction ahead generalizing item with
  | nil =>
    have ended : item.status.isTerminal = true := by
      have belongs := agrees.belongs
      cases kind : item.kind <;> cases status : item.status <;> rw [kind, status] at h belongs <;>
        first | rfl | exact absurd belongs (by decide) | exact absurd h (by simp [Status.ahead])
    unfold driveThroughBy driveThrough
    rw [if_pos ended, if_pos ended]
  | cons next rest ih =>
    have first : Status.onSuccess item.kind item.status = some next := by
      unfold Status.onSuccess
      rw [h]
      rfl
    unfold driveThroughBy driveThrough
    refine (apt_step agrees first).bind_congr fun result fitting => ?_
    rcases result with error | moved
    · have other : error.isPrecondition = false := fitting
      dsimp only [failBy]
      rw [other]
      rfl
    · obtain ⟨kind, agrees'⟩ := fitting
      refine (ends_persist _).bind_congr fun written dated => ?_
      obtain ⟨error | ⟨⟩, written⟩ := written
      · rfl
      · obtain ⟨date, rfl⟩ := dated
        have later := Status.ahead_next h
        rw [← kind] at later
        exact ih (agrees' date) later

theorem processBy_eq (handle : Handler) (skip : Bool) (agrees : item.Agrees) :
    processBy handle skip item = process skip item := by
  unfold processBy process drive
  rw [driveThroughBy_eq handle agrees rfl]

end Processor

section

variable {s : Surroundings} {asked : Asked} {m : Moment} {log : List Line}

theorem Reached.agrees {ledger : Ledger} (reached : Reached s asked (.start ledger) log m) {item : Item}
    (held : Items.Holds m.ground.store item) : item.Agrees := by
  obtain ⟨history, told⟩ := Item.told_reached reached item.index
  obtain ⟨entry, last, record⟩ := Option.map_eq_some_iff.1 (told.stored.symm.trans held.2)
  obtain ⟨held', own⟩ := told.last entry last
  rw [← Items.holds_inj held' held own]
  exact (told.path.agrees entry (List.mem_of_getLast? last)).1

end

namespace Chronicle

/-- One event, with another `Handler` of items that are not fit for a step. -/
def stepBy (handle : Processor.Handler) (chronicle : Chronicle) (event : Event) : Chronicle :=
  match event, chronicle.job with
  | .turn _, some (.seeking skip (.done (some item, later))) =>
    { chronicle with
      job := some (.serving skip item.index (Processor.processBy handle skip item).run later) }
  | event, _ => chronicle.step event

/-- The chronicle after some events, with another `Handler` of items that are not fit for a step. -/
def runBy (handle : Processor.Handler) (events : List Event) : Chronicle :=
  events.foldl (stepBy handle) start

/-- An item that the job is about to serve is one that the store holds. -/
theorem Stands.holds_sought {asked : Asked} {chronicle : Chronicle} {m : Moment} {skip : Bool}
    {item : Item} {later : Option Resume} (stands : Stands asked chronicle m) (sound : m.Sound asked)
    (job : chronicle.job = some (.seeking skip (.done (some item, later)))) :
    Items.Holds m.ground.store item := by
  have working := stands.job
  rw [job] at working
  have inHand : m.stage = .held item none := working.2
  exact sound.stage item (inHand ▸ rfl)

/-- No chronicle depends on what is done about items that are not fit for a step. -/
theorem runBy_eq (handle : Processor.Handler) (events : List Event) : runBy handle events = run events := by
  induction events using List.reverseRecOn with
  | nil => rfl
  | append_singleton events event ih =>
    unfold runBy run at ih ⊢
    rw [List.foldl_concat, List.foldl_concat, ih]
    change stepBy handle (run events) event = (run events).step event
    obtain ⟨m, log, stands, reached, _⟩ := (stands_start (.fresh 0)).events
      (Moment.sound_start (.fresh 0)) events (within_brought events)
    have sound := (Moment.sound_start (.fresh 0)).reached reached
    unfold stepBy
    split
    · rename_i skip item later job
      have agrees := reached.agrees (stands.holds_sought sound job)
      rw [Processor.processBy_eq handle skip agrees]
      unfold step
      rw [job]
    · rfl

/-- In every chronicle, what is on record for a stored item is what its kind and its status say, and one
that was completed by its last step, not by skipping the chain, has the transaction of its last phase on
record. So no step fails because there is no hash of the transaction to wait for, or because the status
is foreign to the kind: the step for an item in the store never does, and no chronicle would be another
one if something else were done about such failures. -/
theorem records_agree (events : List Event) :
    (∀ key record, (run events).store.get? key = some record → Items.keyStart.isPrefixOf key = true →
      ∃ item skip, key = Items.key item.index ∧ Item.layout.decode record = .ok item ∧ item.Agrees ∧
        (records item.index (run events).log).getLast? = some (skip, record) ∧
        (item.status = .completed → skip = false → item.LastMade)) ∧
    (∀ item, Items.Holds (run events).store item →
      (Processor.moveNext item).run.Ends fun result =>
        ∀ error, result = .error error → error.isPrecondition = false) ∧
    ∀ handle, runBy handle events = run events := by
  obtain ⟨m, log, m', reached, same, _⟩ :=
    run_reached events [] (by rw [List.append_nil]; exact within_brought events) (.fresh 0)
  have sound := (Moment.sound_start (.fresh 0)).reached reached
  refine ⟨fun key record there begins => ?_, fun item held => ?_, fun handle => runBy_eq handle events⟩
  · rw [← same] at there
    obtain ⟨item, held, rfl⟩ := sound.tidy key record there begins
    cases held.2.symm.trans there
    obtain ⟨history, told⟩ := Item.told_reached reached item.index
    obtain ⟨entry, last, _⟩ := Option.map_eq_some_iff.1 (told.stored.symm.trans held.2)
    obtain ⟨held', own⟩ := told.last entry last
    cases Items.holds_inj held' held own
    obtain ⟨agrees, lastMade⟩ := told.path.agrees entry (List.mem_of_getLast? last)
    refine ⟨entry.2, entry.1, rfl, Items.decode_encode held.1, agrees, ?_, lastMade⟩
    rw [told.logged, List.getLast?_map, last]
    rfl
  · have apt := Processor.apt_moveNext (reached.agrees (same ▸ held))
    refine apt.mono fun result ended error failed => ?_
    subst failed
    exact ended

end Chronicle

end Registrar
