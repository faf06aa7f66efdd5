import Registrar.Work

/-!
What the calls of a queue ask for besides work on items: fresh secrets, the lock on the assignment of
indices, the lane, and the worker with the signal that stops it. Requests on the lane, the lock and
the worker may have to wait for their answer.
-/

namespace Registrar

namespace Service

inductive Request where
  | work (request : Work.Request)
  | drawSecret
  /-- Take the lock under which indices are assigned, as soon as it is free. -/
  | lock
  | unlock
  /-- Put an index on the lane, waiting for room as long as the queue allows. -/
  | announce (index : Int64)
  /-- The next index on the lane, or none once the worker is told to stop. -/
  | receive
  /-- Note that the queue is running, and learn whether it was already. -/
  | claimRun
  | releaseRun
  /-- Start the worker, unless one was started before. -/
  | startWorker
  | signalStop
  /-- Whether there is a worker that nobody has waited for yet. -/
  | takeWorker
  /-- Wait until the worker has stopped, at most for some milliseconds, and learn whether it has. -/
  | awaitWorker (limit : Option Nat)
  | pause (duration : Nat)

abbrev Request.Answer : Request → Type
  | .work request => request.Answer
  | .drawSecret => Except String Secret
  | .announce _ => Except QueueError Unit
  | .receive => Option Int64
  | .claimRun | .startWorker | .takeWorker | .awaitWorker _ => Bool
  | .lock | .unlock | .releaseRun | .signalStop | .pause _ => Unit

end Service

/-- The interface of the calls of a queue. -/
def Service : Interface := ⟨Service.Request, Service.Request.Answer⟩

namespace Service

variable {ε α : Type}

def ask (request : Request) : Program Service request.Answer := .ask request .done

/-- Work on items, as part of a call of the queue. -/
def work (program : Program Work α) : Program Service α :=
  program.via fun request => .ask (.work request) .done

def attempt (attempt : Attempt Work ε α) : Attempt Service ε α := ExceptT.mk (work attempt.run)

end Service

end Registrar
