import Registrar.CommandLine
import Registrar.World

/-!
A node: a queue that is wired up as its settings say. Starting it runs the queue. Shutting it down
waits for the worker as long as the settings allow; a worker that is still at an item then goes on
with it alone.
-/

namespace Registrar

/-- What a node was doing when an error ended a call. -/
inductive NodeError where
  | starting (error : QueueError)
  | closing (error : QueueError)
  | flushing (error : QueueError)
  deriving DecidableEq, Repr

def NodeError.message : NodeError → String
  | .starting error => s!"Failed to start registration queue: {error.message}"
  | .closing error => s!"Failed to close registration queue: {error.message}"
  | .flushing error => s!"Failed to flush store: {error.message}"

structure Node where
  settings : Settings
  world : World

namespace Settings

/-- How the queue of a node is set up. -/
def queueOptions (settings : Settings) : Queue.Options :=
  { laneCapacity := settings.laneCapacity.toNat, enqueueTimeout := settings.enqueueTimeout.toNat
    skipProcessing := settings.skipProcessing, skipBackground := settings.skipBackgroundProcessing }

/-- What the gateway of a node serves and signs with. -/
def gatewayProfile (settings : Settings) : Ledger.Profile :=
  { endpoint := settings.endpoint, admin := settings.adminAddress
    controller := settings.controllerAddress, gasLimit := settings.gasLimit
    nonceOverride := settings.nonceOverride }

def freshLedger (settings : Settings) : Ledger := .fresh settings.blockTime

end Settings

namespace Node

open World (Outcome)

/-- A node over an empty store and a ledger of its own, whatever its endpoint is. -/
def wire (settings : Settings) (calendar : Calendar) (secrets : Nat → Secret) : Node :=
  ⟨settings, World.build 0
    { profile := settings.gatewayProfile, books := ⟨settings.freshLedger, default⟩
      foreign := .empty, gatewayRules := [], calendar, calls := [] }
    secrets 0 settings.queueOptions⟩

/-- A node over an empty store and a ledger of its own, if it serves its endpoint. -/
def build (settings : Settings) (calendar : Calendar) (secrets : Nat → Secret) :
    Except CommandLine.Refusal Node :=
  if settings.isServed then .ok (wire settings calendar secrets)
  else .error (.unsupportedEndpoint settings.endpoint)

/-- A new node over the store and the ledger of one whose tasks have died. -/
def restart (node : Node) (settings : Settings) : Node :=
  ⟨settings, node.world.killWorker.restart settings.gatewayProfile settings.queueOptions⟩

/-- A new node over the store of one whose tasks have died, with a ledger of its own. -/
def restartWithFreshLedger (node : Node) (settings : Settings) :
    Except CommandLine.Refusal Node :=
  if settings.isServed then
    let next := node.restart settings
    let backend := next.world.backend
    .ok { next with
      world := { next.world with
        backend := { backend with books := { backend.books with ledger := settings.freshLedger } } } }
  else .error (.unsupportedEndpoint settings.endpoint)

/-- The node whose tasks have died while it could not be replaced. -/
def killed (node : Node) : Node := { node with world := node.world.killWorker }

def start (node : Node) : Outcome (Except NodeError Unit) × Node :=
  let (outcome, world) := node.world.run
  (outcome.map fun result => result.mapError .starting, { node with world })

/-- Stop the worker, as far as it stops in time, and flush the store. -/
def stop (limit : Nat) : Attempt Service NodeError Unit := do
  let stopped ← Queue.stopWorker (some limit)
  (Service.attempt (Work.onStore Items.flush)).adapt fun error =>
    if stopped then .closing error else .flushing error

def shutdown (node : Node) : Outcome (Except NodeError Unit) × Node :=
  let (outcome, world) := node.world.call (stop (1000 * node.settings.shutdownTimeout.toNat)).run
  (outcome, { node with world })

end Node

end Registrar
