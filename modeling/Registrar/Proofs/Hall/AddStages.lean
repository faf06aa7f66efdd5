import Registrar.Proofs.Hall

/-!
Adding requests, many at once. `Adding` is how far an add has come, and `Adds` lists its requests with the
stage that each answer leads to; `Queue.abides_add` says that an add makes no other. `Tames` lists what the
other calls of a queue ask for: none of it adds a key of items or takes one away, none is about the lock on
the assignment of indices, and none announces an index.
-/

namespace Registrar

open Item (Status)

/-- The key that an exchange has shown to be there. -/
def Service.Exchange.seen : Service.Exchange → Option Bytes
  | ⟨.work (.store (.exists key)), .ok true⟩ => some key
  | _ => none

/-- Whether a request leaves the keys of items as they are, where `seen` is one of them, and has nothing
to do with adding. -/
def Service.Request.Tame (seen : Option Bytes) : Service.Request → Prop
  | .work (.store (.put key _)) => seen = some key ∨ Items.keyStart.isPrefixOf key = false
  | .work (.store (.erase _)) | .lock | .unlock | .announce _ => False
  | _ => True

/-- The requests of calls that add nothing, each after the key that was seen last. -/
def Tames (seen : Option Bytes) (exchange : Service.Exchange) (next : Option Bytes) : Prop :=
  exchange.request.Tame seen ∧ next = exchange.seen

namespace Program

variable {α β : Type} {seen : Option Bytes}

/-- Work on items that leaves their keys as they are. -/
def Tame : Option Bytes → Program Work α → Prop
  | _, .done _ => True
  | seen, .ask request next => Service.Request.Tame seen (.work request) ∧
      ∀ answer, (next answer).Tame (Service.Exchange.seen ⟨.work request, answer⟩)

theorem Tame.weaken {program : Program Work α} (tame : program.Tame none) : program.Tame seen := by
  cases program with
  | done value => trivial
  | ask request next =>
    refine ⟨?_, tame.2⟩
    have gentle := tame.1
    rcases request with ⟨_⟩ | _ | _
    · rename_i request
      cases request with
      | put key record => exact .inr (gentle.resolve_left nofun)
      | erase => exact gentle
      | _ => trivial
    · trivial
    · trivial

theorem Tame.bind {program : Program Work α} {f : α → Program Work β} (first : program.Tame seen)
    (later : ∀ value, (f value).Tame none) : (program.bind f).Tame seen := by
  induction program generalizing seen with
  | done value => exact (later value).weaken
  | ask request next ih => exact ⟨first.1, fun answer => ih answer (first.2 answer)⟩

theorem Tame.abides {program : Program Work α} {f : α → Program Service β}
    {fits : β → Option Bytes → Prop} (tame : program.Tame seen)
    (later : ∀ value seen, (f value).Abides Tames fits seen) :
    ((Service.work program).bind f).Abides Tames fits seen := by
  induction program generalizing seen with
  | done value => exact later value seen
  | ask request next ih =>
    intro store answer _
    exact ⟨_, ⟨tame.1, rfl⟩, ih answer (tame.2 answer)⟩

end Program

namespace Processor

variable {α β : Type} {item : Item} {seen : Option Bytes}

/-- An attempt that leaves the keys of items as they are. -/
def Gentle (attempt : Attempt Work QueueError α) : Prop := attempt.run.Tame none

theorem Gentle.bind {attempt : Attempt Work QueueError α} {f : α → Attempt Work QueueError β}
    (first : Gentle attempt) (later : ∀ value, Gentle (f value)) : Gentle (attempt >>= f) := by
  refine Program.Tame.bind first fun result => ?_
  cases result with
  | ok value => exact later value
  | error error => trivial

theorem gentle_pure (value : α) : Gentle (pure value) := trivial

theorem gentle_onGateway {lift : GatewayError → QueueError} (request : Gateway.Request) :
    Gentle (Work.onGateway lift request) := ⟨trivial, fun _ => trivial⟩

theorem gentle_of (result : Except QueueError α) : Gentle (Attempt.of (I := Work) result) := trivial

theorem gentle_bindController : Gentle bindController :=
  (gentle_onGateway _).bind fun _ => (gentle_onGateway _).bind fun _ => gentle_pure _

theorem gentle_sendCommit : Gentle (sendCommit item) := by
  refine gentle_bindController.bind fun _ => (gentle_of _).bind fun _ => ?_
  refine (gentle_onGateway _).bind fun _ => (gentle_onGateway _).bind fun _ => ?_
  exact gentle_onGateway _

theorem gentle_sendRegister : Gentle (sendRegister item) := by
  refine gentle_bindController.bind fun _ => (gentle_of _).bind fun _ => ?_
  exact (gentle_onGateway _).bind fun _ => gentle_onGateway _

theorem gentle_sendRenew : Gentle (sendRenew item) :=
  gentle_bindController.bind fun _ => (gentle_onGateway _).bind fun _ => gentle_onGateway _

theorem gentle_confirm (phase : Item.Phase) : Gentle (confirm item phase) := by
  unfold confirm
  cases (item.sent phase).hash with
  | none => trivial
  | some hash =>
    refine (gentle_onGateway _).bind fun _ => (gentle_onGateway _).bind fun tx => ?_
    refine (gentle_onGateway _).bind fun success => ?_
    cases success with
    | false => trivial
    | true =>
      refine ⟨.inr (Items.not_keyStart_isPrefixOf_nonce _), fun answer => ?_⟩
      rcases answer with error | ⟨⟩ <;> trivial

theorem gentle_step : Gentle (step item) := by
  unfold step
  split
  · exact gentle_sendCommit.bind fun _ => gentle_pure _
  · exact (gentle_confirm _).bind fun _ => gentle_pure _
  · exact gentle_sendRegister.bind fun _ => gentle_pure _
  · exact (gentle_confirm _).bind fun _ => gentle_pure _
  · exact gentle_sendRenew.bind fun _ => gentle_pure _
  · exact (gentle_confirm _).bind fun _ => gentle_pure _
  · trivial

theorem tame_persist (item : Item) : (persist item).Tame none := by
  rw [persist_eq]
  refine ⟨trivial, fun date => ⟨trivial, fun answer => ?_⟩⟩
  rcases answer with error | _ | _
  · trivial
  · trivial
  · refine ⟨.inl rfl, fun answer => ?_⟩
    rcases answer with error | ⟨⟩ <;> trivial

theorem tame_fail (item : Item) (error : QueueError) : (fail item error).Tame none := by
  unfold fail
  split
  · trivial
  · exact tame_persist _

theorem tame_driveThrough (ahead : List Status) (item : Item) : (driveThrough ahead item).Tame none := by
  induction ahead generalizing item with
  | nil =>
    unfold driveThrough
    split
    · trivial
    · exact tame_fail _ _
  | cons next rest ih =>
    unfold driveThrough
    refine Program.Tame.bind gentle_step fun result => ?_
    rcases result with error | moved
    · exact tame_fail _ _
    · refine (tame_persist _).bind fun written => ?_
      obtain ⟨error | ⟨⟩, written⟩ := written
      · trivial
      · exact ih written

theorem gentle_process (skip : Bool) (item : Item) : Gentle (process skip item) := by
  cases live : item.status.isTerminal with
  | true =>
    unfold process
    rw [live]
    trivial
  | false =>
    unfold Gentle
    cases skip with
    | false =>
      rw [run_process live]
      exact (tame_driveThrough _ item).bind fun _ => trivial
    | true =>
      rw [run_process_skip live]
      exact (tame_persist _).bind fun _ => trivial

/-- The work on an index leaves the keys of items as they are. -/
theorem tame_processIndex (skip : Bool) (index : Int64) :
    (processIndex skip index).run.Tame none := by
  rw [run_processIndex]
  refine ⟨trivial, fun answer => ?_⟩
  rcases answer with error | _ | record
  · trivial
  · trivial
  · dsimp only
    cases Items.decode (Items.key index) record with
    | error error => trivial
    | ok item => exact gentle_process skip item

end Processor

/-- One round of a scan leaves the keys of items as they are. -/
theorem Resume.tame_round (skip : Bool) (resume : Resume) : (resume.round skip).Tame none := by
  obtain ⟨buckets, tried⟩ := resume
  cases buckets with
  | nil => trivial
  | cons bucket later =>
    rw [round_eq]
    refine ⟨trivial, fun answer => ?_⟩
    rcases answer with error | entries
    · trivial
    · dsimp only
      cases pick tried (Items.select bucket entries) with
      | none => trivial
      | some item => exact Program.Tame.bind (Processor.gentle_process skip item) fun _ => trivial

namespace Queue

/-- Adding a request, request by request. -/
theorem run_add (request : ItemRequest) :
    (add request).run = .ask .drawSecret fun
      | .error message => .done (.error (.secretGeneration message))
      | .ok secret => .ask .lock fun () =>
        (Service.work (create request secret).run).bind fun created => .ask .unlock fun () =>
          match created with
          | .error error => .done (.error error)
          | .ok index => .ask (.announce index) fun (answer : Except QueueError Unit) =>
              .done (answer.map fun () => index) := by
  refine congrArg (Program.ask _) (funext fun answer => ?_)
  rcases answer with message | secret
  · rfl
  · refine congrArg (Program.ask _) (funext fun _ => ?_)
    refine (Program.bind_assoc (Service.work (create request secret).run) _ _).trans ?_
    refine congrArg (Program.bind _) (funext fun created => ?_)
    refine congrArg (Program.ask _) (funext fun _ => ?_)
    rcases created with error | index
    · rfl
    · refine congrArg (Program.ask _) (funext fun answer => ?_)
      rcases answer with error | ⟨⟩ <;> rfl

end Queue

/-- How far an add has come. -/
inductive Adding where
  | drawing
  | locking (secret : Secret)
  | counting (secret : Secret)
  | dating (secret : Secret) (count : Nat)
  | checking (item : Item)
  | putting (item : Item)
  /-- It is about to let others assign an index, with its item stored or not. -/
  | unlocking (filed : Except QueueError Item)
  | announcing (item : Item)
  /-- It has ended, and nothing is stored for it. -/
  | refused (error : QueueError)
  | announced (item : Item) (answer : Except QueueError Unit)

namespace Adding

def drawn : Except String Secret → Adding
  | .ok secret => .locking secret
  | .error message => .refused (.secretGeneration message)

def counted (secret : Secret) : Except StoreError Nat → Adding
  | .ok count => .dating secret count
  | .error error => .unlocking (.error (.store error))

def checked (item : Item) : Except StoreError Bool → Adding
  | .ok false => .putting item
  | .ok true => .unlocking (.error (.duplicateIndex item.index))
  | .error error => .unlocking (.error (.store error))

def put (item : Item) : Except StoreError Unit → Adding
  | .ok () => .unlocking (.ok item)
  | .error error => .unlocking (.error (.store error))

def unlocked : Except QueueError Item → Adding
  | .ok item => .announcing item
  | .error error => .refused error

/-- What an add has answered, once it has ended. -/
def answer : Adding → Option (Except QueueError Int64)
  | .refused error => some (.error error)
  | .announced item answer => some (answer.map fun () => item.index)
  | _ => none

/-- Whether the add is the one that is assigning an index. -/
def holds : Adding → Bool
  | .counting _ | .dating _ _ | .checking _ | .putting _ | .unlocking _ => true
  | _ => false

/-- An add that has ended assigns no index. -/
theorem holds_of_answer {stage : Adding} {answer : Except QueueError Int64}
    (answered : stage.answer = some answer) : stage.holds = false := by
  cases stage <;> first | rfl | cases answered

/-- The item that was stored. -/
def filed : Adding → Option Item
  | .unlocking (.ok item) | .announcing item | .announced item _ => some item
  | _ => none

/-- What the lane has answered. -/
def told : Adding → Option (Int64 × Except QueueError Unit)
  | .announced item answer => some (item.index, answer)
  | _ => none

end Adding

/-- The requests of an add, with the stage that each answer leads to. -/
inductive Adds (request : ItemRequest) : Adding → Service.Exchange → Adding → Prop where
  | draw {answer : Except String Secret} :
      Adds request .drawing ⟨.drawSecret, answer⟩ (.drawn answer)
  | lock {secret} : Adds request (.locking secret) ⟨.lock, ()⟩ (.counting secret)
  | count {secret} {answer : Except StoreError Nat} :
      Adds request (.counting secret) ⟨.work (.store (.count Items.keyStart)), answer⟩
        (.counted secret answer)
  | date {secret count} {date : UInt64} :
      Adds request (.dating secret count) ⟨.work .now, date⟩
        (.checking (.ofRequest (Queue.indexAfter count) secret date request))
  | check {item} {answer : Except StoreError Bool} :
      Adds request (.checking item) ⟨.work (.store (.exists (Items.key item.index))), answer⟩
        (.checked item answer)
  | put {item} {answer : Except StoreError Unit} :
      Adds request (.putting item)
        ⟨.work (.store (.put (Items.key item.index) (Items.encode item))), answer⟩ (.put item answer)
  | unlock {filed} : Adds request (.unlocking filed) ⟨.unlock, ()⟩ (.unlocked filed)
  | announce {item} {answer : Except QueueError Unit} :
      Adds request (.announcing item) ⟨.announce item.index, answer⟩ (.announced item answer)

/-- An add makes the requests of its stages. -/
theorem Queue.abides_add (request : ItemRequest) :
    (add request).run.Abides (Adds request) (fun answer stage => stage.answer = some answer)
      .drawing := by
  rw [run_add]
  rintro store (message | secret) _
  · exact ⟨_, .draw, rfl⟩
  · refine ⟨_, .draw, fun store answer _ => ⟨_, .lock, ?_⟩⟩
    -- What comes after the lock was given back depends on what was stored.
    have ends : ∀ (filed : Except QueueError Item) (created : Except QueueError Int64),
        filed.map (fun item => item.index) = created →
        (Program.ask (I := Service) .unlock fun () =>
          match created with
          | .error error => .done (.error error)
          | .ok index => .ask (.announce index) fun (answer : Except QueueError Unit) =>
              .done (answer.map fun () => index)).Abides (Adds request)
          (fun answer stage => stage.answer = some answer) (.unlocking filed) := by
      rintro (error | item) _ rfl store answer _
      · exact ⟨_, .unlock, rfl⟩
      · exact ⟨_, .unlock, fun store answer _ => ⟨_, .announce, rfl⟩⟩
    rw [run_create]
    rintro store (error | count) _
    · exact ⟨_, .count, ends (.error (.store error)) _ rfl⟩
    · refine ⟨_, .count, fun store date _ => ⟨_, .date, ?_⟩⟩
      let item := Item.ofRequest (indexAfter count) secret date request
      have index : item.index = indexAfter count := index_ofRequest _ _ _ _
      have check : ∀ answer : Except StoreError Bool, Adds request (.checking item)
          ⟨.work (.store (.exists (Items.key (indexAfter count)))), answer⟩ (.checked item answer) :=
        fun answer => index ▸ .check
      have put : ∀ answer : Except StoreError Unit, Adds request (.putting item)
          ⟨.work (.store (.put (Items.key (indexAfter count)) (Items.encode item))), answer⟩
          (.put item answer) := fun answer => index ▸ .put
      rintro store (error | _ | _) _
      · exact ⟨_, check _, ends (.error (.store error)) _ rfl⟩
      · refine ⟨_, check _, ?_⟩
        rintro store (error | ⟨⟩) _
        · exact ⟨_, put _, ends (.error (.store error)) _ rfl⟩
        · exact ⟨_, put _, ends (.ok item) _ (congrArg Except.ok index)⟩
      · exact ⟨_, check _, ends (.error (.duplicateIndex item.index))
          (.error (.duplicateIndex (indexAfter count)))
          (congrArg (fun index => Except.error (QueueError.duplicateIndex index)) index)⟩

end Registrar
