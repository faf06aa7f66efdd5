import Registrar.Work

/-!
Work on one item: its protocol, step by step, until it stops.

A sending step submits the transaction of its phase and puts it on record; a confirming step fetches
that transaction again by its hash, so that an item which is taken up again never sends twice. After
every step the item is written back. A step that fails ends the item, unless it is the books that
failed: then the error is passed on, and the item stays as it was last written.
-/

namespace Registrar.Processor

open Item (Phase Status)

/-- The address of the item's owner. -/
def owner (item : Item) : Except QueueError Address :=
  match Fixed.parse item.ownerEthAddress with
  | .ok address => .ok address
  | .error error => .error (.invalidOwnerAddress item.ownerEthAddress error.message)

/-- One request to the gateway within a phase, whose failure is one of that phase. -/
def inPhase (phase : Phase) (request : Gateway.Request) : Attempt Work QueueError request.Value :=
  Work.onGateway (fun error => .phaseFailed phase error.message) request

/-- A connection, and the controller bound over it. -/
def bindController : Attempt Work QueueError (Connection × Controller) := do
  let connection ← Work.onGateway .gateway .connect
  let controller ← Work.onGateway .gateway (.bindController connection)
  return (connection, controller)

/-- Commit to the registration of the item's name. -/
def sendCommit (item : Item) : Attempt Work QueueError TxHandle := do
  let (connection, controller) ← bindController
  let account ← Attempt.of (owner item)
  let commitment ← inPhase .commit (.makeCommitment (item.registration account) controller)
  let auth ← inPhase .commit (.authOptions connection)
  inPhase .commit (.commit auth commitment controller)

/-- Reveal the registration that was committed to. -/
def sendRegister (item : Item) : Attempt Work QueueError TxHandle := do
  let (connection, controller) ← bindController
  let account ← Attempt.of (owner item)
  let auth ← inPhase .register (.authOptions connection)
  inPhase .register (.register auth (item.registration account) controller)

/-- Renew the item's name. -/
def sendRenew (item : Item) : Attempt Work QueueError TxHandle := do
  let (connection, controller) ← bindController
  let auth ← inPhase .renew (.authOptions connection)
  inPhase .renew (.renew auth item.fullName item.renewDuration controller)

/-- Wait for the transaction of a phase, and note its sender's next nonce. -/
def confirm (item : Item) (phase : Phase) : Attempt Work QueueError Unit := do
  match (item.sent phase).hash with
  | none => throw (.emptyTxHash phase)
  | some hash =>
    let connection ← Work.onGateway .gateway .connect
    let tx ← inPhase phase (.findTx connection hash)
    if ← inPhase phase (.awaitMined connection tx) then
      let _ ← Work.onStore ((Nonce.save tx.sender (saturatingAdd tx.nonce 1)).adapt .nonce)
    else
      throw (.phaseFailed phase s!"tx {hash.render} was not mined successfully")

/-- The step for the item's status, and the item with what the step put on record. -/
def step (item : Item) : Attempt Work QueueError Item := do
  match item.kind, item.status with
  | .register, .initial => return item.record (← sendCommit item) .commit
  | .register, .commitSent => confirm item .commit; return item
  | .register, .commitDone => return item.record (← sendRegister item) .register
  | .register, .registerSent => confirm item .register; return item
  | .renew, .initial => return item.record (← sendRenew item) .renew
  | .renew, .renewSent => confirm item .renew; return item
  | kind, status => throw (.invalidState item.index kind status)

/-- The status after one step, and the item with what the step put on record. A terminal status
stays, and the chain is not touched. -/
def moveNext (item : Item) : Attempt Work QueueError (Status × Item) := do
  if item.status.isTerminal then return (item.status, item)
  let moved ← step item
  match Status.onSuccess item.kind item.status with
  | some next => return (next, moved)
  | none => throw (.invalidState item.index item.kind item.status)

/-- Write the item back with the time of the change, and tell the item as it is now in hand, whether
or not it could be written. -/
def persist (item : Item) : Program Work (Except QueueError Unit × Item) := do
  let item := { item with dateModified := ← Work.now }
  return (← (Work.onStore (Items.replace item)).run, item)

/-- After a failed step: end the item, or pass on a failure of the books. -/
def fail (item : Item) (error : QueueError) : Program Work (Except QueueError Unit × Item) :=
  if error.isInfrastructure then .done (.error error, item)
  else persist { item with status := Status.onFailure item.kind item.status }

/-- Take the steps that lead through the statuses ahead. -/
def driveThrough : List Status → Item → Program Work (Except QueueError Unit × Item)
  | [], item =>
    if item.status.isTerminal then .done (.ok (), item)
    else fail item (.invalidState item.index item.kind item.status)
  | next :: ahead, item => do
    match ← (step item).run with
    | .error error => fail item error
    | .ok moved =>
      match ← persist { moved with status := next } with
      | (.error error, written) => return (.error error, written)
      | (.ok (), written) => driveThrough ahead written

/-- Take an item through its protocol until it stops, and tell the item as it is then in hand. -/
def drive (item : Item) : Program Work (Except QueueError Unit × Item) :=
  driveThrough (Status.ahead item.kind item.status) item

/-- Process an item and answer its last status. Where items are skipped, it is completed without a
look at the chain. -/
def process (skip : Bool) (item : Item) : Attempt Work QueueError Status := do
  if item.status.isTerminal then return item.status
  let (result, final) ←
    if skip then persist { item with status := .completed } else drive item
  Attempt.of result
  return final.status

/-- Process the item that the store holds under an index. -/
def processIndex (skip : Bool) (index : Int64) : Attempt Work QueueError Status := do
  match ← Work.onStore (Items.get index) with
  | none => throw (.itemNotFound index)
  | some item => process skip item

end Registrar.Processor
