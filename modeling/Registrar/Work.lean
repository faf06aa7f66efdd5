import Registrar.Gateway
import Registrar.Items

/-!
What the work on an item asks for: the store, a chain gateway, and the time of day.
-/

namespace Registrar

namespace Work

inductive Request where
  | store (request : Store.Request)
  | gateway (request : Gateway.Request)
  | now

abbrev Request.Answer : Request → Type
  | .store request => request.Answer
  | .gateway request => request.Answer
  | .now => UInt64

end Work

/-- The interface of work on items. -/
def Work : Interface := ⟨Work.Request, Work.Request.Answer⟩

namespace Work

variable {ε α : Type}

/-- Work on the store alone. -/
def onStore (attempt : Attempt Store.Access ε α) : Attempt Work ε α :=
  attempt.via fun request => .ask (.store request) .done

/-- One request to the gateway, whose error becomes an error of the queue. -/
def onGateway (lift : GatewayError → QueueError) (request : Gateway.Request) :
    Attempt Work QueueError request.Value :=
  Attempt.ask (I := Work) (.gateway request) fun (answer : request.Answer) => answer.mapError lift

/-- Seconds since the epoch. -/
def now : Program Work UInt64 := .ask .now .done

end Work

end Registrar
