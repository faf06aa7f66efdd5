import Registrar.Resume
import Registrar.Service

/-!
The registration queue. A request is stored as an item under the next index and then announced to the
worker, which processes one item at a time. Running the queue takes up what an earlier run has left,
then starts the worker; closing it stops the worker between two items and flushes the store.
-/

namespace Registrar.Queue

structure Options where
  laneCapacity : Nat
  /-- Milliseconds that an announcement waits for room on the lane. -/
  enqueueTimeout : Nat
  /-- Complete items without a look at the chain. -/
  skipProcessing : Bool
  /-- Take up what was left, but never start the worker. -/
  skipBackground : Bool
  deriving DecidableEq, Repr

/-- The index after `count` others, or the largest index there is. -/
def indexAfter (count : Nat) : Int64 := Int64.ofInt (min count Int64.maxValue.toInt)

/-- Store the item of a request under the next index. -/
def create (request : ItemRequest) (secret : Secret) : Attempt Work QueueError Int64 := do
  let index := indexAfter (← Work.onStore Items.count)
  let now ← Work.now
  Work.onStore (Items.insert (Item.ofRequest index secret now request))
  return index

/-- Store a request and announce it. An item that could not be announced stays in the store. -/
def add (request : ItemRequest) : Attempt Service QueueError Int64 := do
  let secret ← ExceptT.mk do return (← Service.ask .drawSecret).mapError .secretGeneration
  Service.ask .lock
  let created ← ExceptT.lift (Service.work (create request secret).run)
  Service.ask .unlock
  let index ← Attempt.of created
  ExceptT.mk (Service.ask (.announce index))
  return index

/-- What a client is told about the item with an index. -/
def progress (index : Int64) : Attempt Work QueueError Item.Progress := do
  match ← Work.onStore (Items.get index) with
  | none => throw (.itemNotFound index)
  | some item => return item.status.progress

/-- How far a run has come. -/
inductive RunStage where
  | claiming
  | resuming (resume : Resume)

/-- One round of a run. A run whose scan fails leaves the queue as if it had not been called. -/
def runRound (options : Options) :
    RunStage → Program Service (Next RunStage (Except QueueError Unit))
  | .claiming => do
    if ← Service.ask .claimRun then return .finished (.error .alreadyRunning)
    else return .again (.resuming .start)
  | .resuming resume => do
    match ← Service.work (resume.round options.skipProcessing) with
    | .again resume => return .again (.resuming resume)
    | .finished (.error error) =>
      Service.ask .releaseRun
      return .finished (.error error)
    | .finished (.ok ()) =>
      if options.skipBackground then return .finished (.ok ())
      else if ← Service.ask .startWorker then return .finished (.ok ())
      else return .finished (.error .alreadyRunning)

/-- One round of a resume scan by itself. -/
def resumeRound (skip : Bool) (resume : Resume) :
    Program Service (Next Resume (Except QueueError Unit)) :=
  Service.work (resume.round skip)

/-- One round of the worker: the next index on the lane, whatever becomes of its item, or the end. -/
def workerRound (skip : Bool) : Unit → Program Service (Next Unit Unit)
  | () => do
    match ← Service.ask .receive with
    | none => return .finished ()
    | some index =>
      let _ ← Service.work (Processor.processIndex skip index).run
      return .again ()

/-- What a worker does with a lane that holds these indices and gets no more. -/
def workThrough (skip : Bool) : List Int64 → Program Work Unit
  | [] => .done ()
  | index :: rest => do
    let _ ← (Processor.processIndex skip index).run
    workThrough skip rest

/-- Tell the worker to stop, and wait for it, at most for some milliseconds. Answers whether there is
no worker left to wait for. -/
def stopWorker (limit : Option Nat) : Program Service Bool := do
  Service.ask .signalStop
  if ← Service.ask .takeWorker then Service.ask (.awaitWorker limit) else return true

/-- Stop the worker between two items and flush the store. -/
def close : Attempt Service QueueError Unit := do
  let _ ← stopWorker none
  Service.attempt (Work.onStore Items.flush)

end Registrar.Queue
