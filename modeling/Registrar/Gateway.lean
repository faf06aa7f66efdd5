import Registrar.Chain
import Registrar.Fault
import Registrar.Program

/-!
Requests to a chain gateway. Any of them may fail, and what one of them answers binds none of the
others.
-/

namespace Registrar.Gateway

inductive Request where
  /-- Open a connection. -/
  | connect
  /-- Bind the registrar's controller over a connection. -/
  | bindController (connection : Connection)
  | makeCommitment (registration : Registration) (controller : Controller)
  /-- Ask for the options to sign the administrator's next transaction. -/
  | authOptions (connection : Connection)
  | commit (auth : AuthOptions) (commitment : Commitment) (controller : Controller)
  | register (auth : AuthOptions) (registration : Registration) (controller : Controller)
  | renew (auth : AuthOptions) (fullName : String) (duration : UInt64) (controller : Controller)
  /-- Fetch a transaction by its hash. -/
  | findTx (connection : Connection) (hash : TxHash)
  /-- Wait until a transaction is mined, and learn whether it took effect. -/
  | awaitMined (connection : Connection) (tx : TxHandle)
  deriving DecidableEq

/-- What a request returns when it does not fail. -/
abbrev Request.Value : Request → Type
  | .connect => Connection
  | .bindController _ => Controller
  | .makeCommitment _ _ => Commitment
  | .authOptions _ => AuthOptions
  | .commit _ _ _ | .register _ _ _ | .renew _ _ _ _ | .findTx _ _ => TxHandle
  | .awaitMined _ _ => Bool

abbrev Request.Answer (request : Request) : Type := Except GatewayError request.Value

/-- An answer, and how many milliseconds pass before it is there. -/
structure Reply (α : Type) where
  answer : α
  delay : Nat

/-- The kinds of requests that a fault rule tells apart. -/
inductive Operation where
  | connect
  | bindController
  | makeCommitment
  | authOptions
  | commit
  | register
  | renew
  | findTx
  | awaitMined
  deriving DecidableEq, Repr

def Request.operation : Request → Operation
  | .connect => .connect
  | .bindController _ => .bindController
  | .makeCommitment _ _ => .makeCommitment
  | .authOptions _ => .authOptions
  | .commit _ _ _ => .commit
  | .register _ _ _ => .register
  | .renew _ _ _ _ => .renew
  | .findTx _ _ => .findTx
  | .awaitMined _ _ => .awaitMined

/-- What a fault rule makes of a request. -/
inductive Effect where
  /-- The request fails. -/
  | fail (error : GatewayError)
  /-- A wait for a transaction ends at once with this result; other requests are not touched. -/
  | mined (success : Bool)
  /-- Whoever made the request breaks off and never goes on. -/
  | breakOff
  deriving DecidableEq, Repr

abbrev FaultRule := Fault Operation Effect

end Registrar.Gateway
