/-!
The status of a queue item and the table of its transitions.

A name is registered in two phases, each sent and then confirmed:
`initial → commitSent → commitDone → registerSent → completed`. A name is renewed in one:
`initial → renewSent → completed`. A failed step leads to the error status of its phase, and a status
that does not belong to the item's kind fails into `error`. No step leaves a terminal status.
-/

namespace Registrar

namespace Item

/-- What an item asks for. -/
inductive Kind where
  | register
  | renew
  deriving DecidableEq, Repr

def Kind.all : List Kind := [.register, .renew]

def Kind.label : Kind → String
  | .register => "NameRegister"
  | .renew => "NameRenew"

/-- The phases in which transactions are sent. -/
inductive Phase where
  | commit
  | register
  | renew
  deriving DecidableEq, Repr

def Phase.label : Phase → String
  | .commit => "commit"
  | .register => "register"
  | .renew => "renew"

inductive Status where
  | initial
  | commitSent
  | commitDone
  | registerSent
  | completed
  | commitError
  | registerError
  | error
  | renewSent
  | renewError
  deriving DecidableEq, Repr

/-- What a client is told about an item. -/
inductive Progress where
  | pending
  | completed
  | failed
  deriving DecidableEq, Repr

def Progress.all : List Progress := [.pending, .completed, .failed]

def Progress.label : Progress → String
  | .pending => "PENDING"
  | .completed => "COMPLETED"
  | .failed => "ERROR"

namespace Status

/-- Every status, in the order in which they are numbered. -/
def all : List Status :=
  [.initial, .commitSent, .commitDone, .registerSent, .completed, .commitError, .registerError,
    .error, .renewSent, .renewError]

/-- The statuses that a resume scan visits, in this order. -/
def resumeBuckets : List Status := [.initial, .commitSent, .commitDone, .registerSent, .renewSent]

def label : Status → String
  | .initial => "INITIAL"
  | .commitSent => "COMMIT_SENT"
  | .commitDone => "COMMIT_DONE"
  | .registerSent => "REGISTER_SENT"
  | .completed => "COMPLETED"
  | .commitError => "COMMIT_ERROR"
  | .registerError => "REGISTER_ERROR"
  | .error => "ERROR"
  | .renewSent => "RENEW_SENT"
  | .renewError => "RENEW_ERROR"

def isTerminal : Status → Bool
  | .completed | .commitError | .registerError | .error | .renewError => true
  | .initial | .commitSent | .commitDone | .registerSent | .renewSent => false

/-- Whether items of a kind may have the status. -/
def belongsTo : Status → Kind → Bool
  | .renewSent, .register | .renewError, .register => false
  | _, .register => true
  | .initial, .renew | .renewSent, .renew | .completed, .renew | .renewError, .renew
  | .error, .renew => true
  | _, .renew => false

/-- The statuses still ahead of an item whose steps all succeed. -/
def ahead : Kind → Status → List Status
  | .register, .initial => [.commitSent, .commitDone, .registerSent, .completed]
  | .register, .commitSent => [.commitDone, .registerSent, .completed]
  | .register, .commitDone => [.registerSent, .completed]
  | .register, .registerSent => [.completed]
  | .renew, .initial => [.renewSent, .completed]
  | .renew, .renewSent => [.completed]
  | _, _ => []

/-- The status after a step that succeeds; there is none for a terminal status and for one that does
not belong to the kind. -/
def onSuccess (kind : Kind) (status : Status) : Option Status := (ahead kind status).head?

/-- The status after a step that fails. -/
def onFailure (kind : Kind) (status : Status) : Status :=
  if status.isTerminal then status
  else match kind, status with
    | .register, .initial | .register, .commitSent => .commitError
    | .register, .commitDone => .registerError
    | .renew, .initial | .renew, .renewSent => .renewError
    | _, _ => .error

def progress : Status → Progress
  | .initial | .commitSent | .commitDone | .registerSent | .renewSent => .pending
  | .completed => .completed
  | .commitError | .registerError | .error | .renewError => .failed

/-- Whether an item is left alone after a step that led to `status`. -/
def stops (status : Status) (stepFailed : Bool) : Bool := stepFailed || status.isTerminal

/-- What is ahead of the next status is what was ahead, without it. -/
theorem ahead_next {kind : Kind} {status next : Status} {rest : List Status}
    (h : ahead kind status = next :: rest) : ahead kind next = rest := by
  cases kind <;> cases status <;> simp_all [ahead] <;> obtain ⟨rfl, rfl⟩ := h <;> rfl

theorem isTerminal_onFailure (kind : Kind) (status : Status) :
    (onFailure kind status).isTerminal = true := by
  cases kind <;> cases status <;> rfl

theorem onFailure_ne_completed {kind : Kind} {status : Status} (live : status.isTerminal = false) :
    onFailure kind status ≠ .completed := by
  cases kind <;> cases status <;> first | decide | cases live

theorem mem_resumeBuckets {status : Status} :
    status ∈ resumeBuckets ↔ status.isTerminal = false := by
  cases status <;> decide

end Status

end Item

end Registrar
