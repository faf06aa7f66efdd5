import Registrar.Backend
import Registrar.Lane
import Registrar.Queue
import Registrar.Sleep

/-!
A queue at work in time. Tasks make one request after the other; a request on the lane, the lock or
the worker may have to wait, and a transaction that is being mined keeps a task asleep. The clock
stands still while any task can go on, and then moves straight to the next moment at which one can.
-/

namespace Registrar

/-- A task: the rest of its round, and the rounds after it. Its next request is made at `since`. -/
structure Task (σ α : Type) where
  since : Nat
  program : Program Service (Next σ α)
  round : σ → Program Service (Next σ α)

namespace Task

/-- The task that begins with a round. -/
def ofRounds {σ α : Type} (clock : Nat) (round : σ → Program Service (Next σ α)) (start : σ) :
    Task σ α :=
  ⟨clock, round start, round⟩

/-- The task of a single program. -/
def once {α : Type} (clock : Nat) (program : Program Service α) : Task Empty α :=
  ⟨clock, program.bind fun value => .done (.finished value), fun s => nomatch s⟩

end Task

/-- The one worker of a queue. -/
inductive Worker where
  | absent
  | live (task : Task Unit Unit)
  | stopped

def Worker.isLive : Worker → Bool
  | .live _ => true
  | .absent | .stopped => false

structure World where
  /-- Milliseconds since the beginning. -/
  clock : Nat
  backend : Backend
  /-- The secrets that are drawn one after the other. -/
  secrets : Nat → Secret
  drawn : Nat
  options : Queue.Options
  lane : Lane
  /-- Whether an index is being assigned. -/
  locked : Bool
  running : Bool
  worker : Worker
  /-- Whether nobody has waited for the worker yet. -/
  workerHeld : Bool
  /-- Whether the worker was told to stop since it started. -/
  told : Bool

/-- What becomes of a request at a moment. -/
inductive Poll (α : Type) where
  | answered (answer : α) (delay : Nat) (world : World)
  | waits
  | brokeOff (world : World)

namespace World

/-- A queue that was just built over a backend. -/
def build (clock : Nat) (backend : Backend) (secrets : Nat → Secret) (drawn : Nat)
    (options : Queue.Options) : World :=
  { clock, backend, secrets, drawn, options, lane := Lane.make options.laneCapacity, locked := false
    running := false, worker := .absent, workerHeld := false, told := false }

/-- The worker that is just starting. -/
def newWorker (world : World) : Task Unit Unit :=
  Task.ofRounds world.clock (Queue.workerRound world.options.skipProcessing) ()

/-- What becomes of a request that was made at `since`. -/
def poll (world : World) (since : Nat) : (request : Service.Request) → Poll request.Answer
  | .work request =>
    match world.backend.serve request with
    | (some reply, backend) => .answered reply.answer reply.delay { world with backend }
    | (none, backend) => .brokeOff { world with backend }
  | .drawSecret =>
    .answered (.ok (world.secrets world.drawn)) 0 { world with drawn := world.drawn + 1 }
  | .lock => if world.locked then .waits else .answered () 0 { world with locked := true }
  | .unlock => .answered () 0 { world with locked := false }
  | .announce index =>
    if world.lane.closed then .answered (.error .laneClosed) 0 world
    else if world.lane.hasRoom then
      .answered (.ok ()) 0 { world with lane := world.lane.push index }
    else if since + world.options.enqueueTimeout ≤ world.clock then
      .answered (.error (.laneFull index)) 0 world
    else .waits
  | .receive =>
    if world.told then .answered none 0 world
    else match world.lane.pop with
      | some (index, lane) => .answered (some index) 0 { world with lane }
      | none => .waits
  | .claimRun => .answered world.running 0 { world with running := true }
  | .releaseRun => .answered () 0 { world with running := false }
  | .startWorker =>
    match world.worker with
    | .absent =>
      .answered true 0
        { world with worker := .live world.newWorker, workerHeld := true, told := false }
    | .live _ | .stopped => .answered false 0 world
  | .signalStop => .answered () 0 { world with told := true }
  | .takeWorker => .answered world.workerHeld 0 { world with workerHeld := false }
  | .awaitWorker limit =>
    if !world.worker.isLive then .answered true 0 world
    else if limit.any fun limit => since + limit ≤ world.clock then .answered false 0 world
    else .waits
  | .pause duration =>
    if since + Sleep.lasting duration ≤ world.clock then .answered () 0 world else .waits

/-- What one step of a task comes to. -/
inductive Turn (σ α : Type) where
  | finished (value : α)
  | moved (world : World) (task : Task σ α)
  | waits
  | brokeOff (world : World)

variable {σ α : Type}

/-- One step of a task, if it can go on at this moment. -/
def turn (world : World) (task : Task σ α) : Turn σ α :=
  if world.clock < task.since then .waits
  else match task.program with
    | .done (.finished value) => .finished value
    | .done (.again state) =>
      .moved world { task with since := world.clock, program := task.round state }
    | .ask request next =>
      match world.poll task.since request with
      | .waits => .waits
      | .brokeOff world => .brokeOff world
      | .answered answer delay world =>
        .moved world { task with since := world.clock + delay, program := next answer }

/-- The moment at which a waiting task goes on by itself, whatever the others do. -/
def alarm (world : World) (task : Task σ α) : Option Nat :=
  if world.clock < task.since then some task.since
  else match task.program with
    | .ask (.announce _) _ => some (task.since + world.options.enqueueTimeout)
    | .ask (.awaitWorker limit) _ => limit.map (task.since + ·)
    | .ask (.pause duration) _ => some (task.since + Sleep.lasting duration)
    | _ => none

/-- The world after the worker has ended, in whatever way: nobody takes from the lane any more. -/
def endWorker (world : World) : World := { world with worker := .stopped, lane := world.lane.drop }

/-- One step of the worker, if there is one that can go on at this moment. -/
def workerTurn (world : World) : Option World :=
  match world.worker with
  | .absent | .stopped => none
  | .live task =>
    match world.turn task with
    | .finished () => some world.endWorker
    | .brokeOff world => some world.endWorker
    | .moved world task => some { world with worker := .live task }
    | .waits => none

/-- The next moment at which the worker or a client's task goes on by itself. -/
def nextAlarm (world : World) (client : Task σ α) : Option Nat :=
  let ofWorker := match world.worker with
    | .live task => world.alarm task
    | .absent | .stopped => none
  match world.alarm client, ofWorker with
  | some a, some b => some (min a b)
  | a, b => a.or b

/-- How a client's task ends. -/
inductive Outcome (α : Type) where
  | finished (value : α)
  | brokeOff
  | unfinished
  deriving Repr

def Outcome.map {α β : Type} (f : α → β) : Outcome α → Outcome β
  | .finished value => .finished (f value)
  | .brokeOff => .brokeOff
  | .unfinished => .unfinished

/-- Whose turn it is. -/
inductive Phase where
  | client
  | worker
  | clock

/-- Let the client go on until it waits, then the worker until it waits, and move the clock when both
do, for at most as many steps as are given. -/
def settle : Nat → Phase → World → Task σ α → Outcome α × World
  | 0, _, world, _ => (.unfinished, world)
  | steps + 1, .worker, world, client =>
    match world.workerTurn with
    | some world => settle steps .worker world client
    | none => settle steps .clock world client
  | steps + 1, phase, world, client =>
    match world.turn client with
    | .finished value => (.finished value, world)
    | .brokeOff world => (.brokeOff, world)
    | .moved world client => settle steps .client world client
    | .waits =>
      match phase with
      | .clock =>
        match world.nextAlarm client with
        | some clock => settle steps .client { world with clock } client
        | none => (.unfinished, world)
      | _ => settle steps .worker world client

/-- More steps than a client's task and the worker can take: each attempt on an item takes less than
`128`, a scan makes one attempt for each item in each of its five searches, and the worker one for
each index on the lane. A client's own list of items adds `extra` to them. -/
def budget (world : World) (extra : Nat) : Nat :=
  128 * (5 * (world.backend.books.store.store.size + 4) + world.lane.waiting.length + extra)

/-- The end of a client's task, and the world then. -/
def perform (world : World) (extra : Nat) (client : Task σ α) : Outcome α × World :=
  settle (world.budget extra) .client world client

/-- The end of a single call. -/
def call (world : World) (program : Program Service α) : Outcome α × World :=
  world.perform 0 (Task.once world.clock program)

/-- Take up what an earlier run has left and start the worker. -/
def run (world : World) : Outcome (Except QueueError Unit) × World :=
  world.perform 0 (Task.ofRounds world.clock (Queue.runRound world.options) .claiming)

/-- Take up what an earlier run has left. -/
def resume (world : World) : Outcome (Except QueueError Unit) × World :=
  world.perform 0
    (Task.ofRounds world.clock (Queue.resumeRound world.options.skipProcessing) .start)

/-- The end of a worker on a lane of its own that holds these indices and gets no more. -/
def workThrough (world : World) (indices : List Int64) : Outcome Unit × World :=
  world.perform indices.length
    (Task.once world.clock
      (Service.work (Queue.workThrough world.options.skipProcessing indices)))

/-- The world after every task has died: a worker ends in the midst of what it does. -/
def killWorker (world : World) : World :=
  if world.worker.isLive then world.endWorker else world

/-- A new queue over what outlives the process: store, ledger, calendar and clock. -/
def restart (world : World) (profile : Ledger.Profile) (options : Queue.Options) : World :=
  build world.clock { world.backend with profile, gatewayRules := [] } world.secrets world.drawn
    options

end World

end Registrar
