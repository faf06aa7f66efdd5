import Registrar.Item
import Registrar.Nonce

/-!
Errors of the queue. A failed step of an item's protocol ends the item; a failure of the books, of
store or nonce, is passed on, and the item stays as it was last written.
-/

namespace Registrar

inductive QueueError where
  | phaseFailed (phase : Item.Phase) (reason : String)
  | emptyTxHash (phase : Item.Phase)
  | invalidState (index : Int64) (kind : Item.Kind) (status : Item.Status)
  | invalidOwnerAddress (value reason : String)
  | gateway (error : GatewayError)
  | store (error : StoreError)
  | nonce (error : NonceError)
  | itemNotFound (index : Int64)
  | duplicateIndex (index : Int64)
  | secretGeneration (reason : String)
  | laneFull (index : Int64)
  | laneClosed
  | alreadyRunning
  deriving DecidableEq, Repr

namespace QueueError

def message : QueueError → String
  | .phaseFailed phase reason => s!"Failed to {phase.label} name: {reason}"
  | .emptyTxHash phase => s!"Tx hash is empty for {phase.label} phase"
  | .invalidState index kind status =>
    s!"Item {index.toInt} has status {status.label} which is invalid for {kind.label}"
  | .invalidOwnerAddress value reason => s!"Invalid owner address '{value}': {reason}"
  | .gateway error => error.message
  | .store error => error.message
  | .nonce error => error.message
  | .itemNotFound index => s!"Item not found: {index.toInt}"
  | .duplicateIndex index => s!"Duplicate item index: {index.toInt}"
  | .secretGeneration reason => s!"Can not generate secret: {reason}"
  | .laneFull index => s!"Dispatch lane full, item {index.toInt} left for the next resume scan"
  | .laneClosed => "Dispatch lane closed"
  | .alreadyRunning => "Queue is already running"

/-- Whether the error is one of the books, so that the item must not be ended by it. -/
def isInfrastructure : QueueError → Bool
  | .store _ | .nonce _ | .itemNotFound _ => true
  | _ => false

end QueueError

end Registrar
