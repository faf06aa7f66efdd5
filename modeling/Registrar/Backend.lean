import Registrar.Ledger.Gateway
import Registrar.Work

/-!
What stands behind the work on items: a store and the gateway of a development ledger, both behind
fault rules, transactions known from elsewhere, the time of day, and a record of what was asked.
-/

namespace Registrar

/-- The time of day, and by how much each reading moves it on. -/
structure Calendar where
  now : UInt64
  tick : UInt64
  deriving DecidableEq, Repr

def Calendar.read (calendar : Calendar) : UInt64 × Calendar :=
  (calendar.now, { calendar with now := saturatingAdd calendar.now calendar.tick })

/-- What is put on record of the requests: writes, and all that the gateway was asked. -/
inductive Call where
  | put (key : Bytes) (ok : Bool)
  | gateway (request : Gateway.Request)
  deriving DecidableEq

structure Backend where
  profile : Ledger.Profile
  books : Ledger.Books
  /-- Transactions that were not sent through this gateway; one does not wait for them. -/
  foreign : Table TxHash Ledger.Tx
  gatewayRules : List Gateway.FaultRule
  calendar : Calendar
  /-- The requests so far, the latest first. -/
  calls : List Call

namespace Backend

open Gateway (Reply Effect)

/-- The record of a store request. -/
def callOf : (request : Store.Request) → request.Answer → Option Call
  | .put key _, answer => some (.put key answer.isOk)
  | _, _ => none

def serveStore (backend : Backend) (request : Store.Request) : request.Answer × Backend :=
  let (answer, store) := backend.books.store.serve request
  (answer,
    { backend with
      books := { backend.books with store }
      calls := (callOf request answer).toList ++ backend.calls })

/-- The answer of the gateway itself, for which foreign transactions are transactions too. -/
def serveChain (backend : Backend) : (request : Gateway.Request) → Reply request.Answer × Backend
  | .findTx connection hash =>
    match backend.foreign.find? hash with
    | some tx => (⟨.ok tx.handle, 0⟩, backend)
    | none =>
      let (reply, books) := backend.profile.serve backend.books (.findTx connection hash)
      (reply, { backend with books })
  | .awaitMined connection tx =>
    match backend.foreign.find? tx.hash with
    | some foreign => (⟨.ok foreign.success, 0⟩, backend)
    | none =>
      let (reply, books) := backend.profile.serve backend.books (.awaitMined connection tx)
      (reply, { backend with books })
  | request =>
    let (reply, books) := backend.profile.serve backend.books request
    (reply, { backend with books })

/-- The answer under the effect of a fault rule; there is none where the rule breaks off. -/
def serveUnder (backend : Backend) :
    Option Effect → (request : Gateway.Request) → Option (Reply request.Answer) × Backend
  | some .breakOff, _ => (none, backend)
  | some (.fail error), _ => (some ⟨.error error, 0⟩, backend)
  | some (.mined success), .awaitMined _ _ => (some ⟨.ok success, 0⟩, backend)
  | _, request => (backend.serveChain request).map some id

def serveGateway (backend : Backend) (request : Gateway.Request) :
    Option (Reply request.Answer) × Backend :=
  let (effect, gatewayRules) := Fault.fire (· == request.operation) backend.gatewayRules
  { backend with gatewayRules, calls := .gateway request :: backend.calls }.serveUnder effect request

/-- What a request is answered, how long that takes, and the backend after it. There is no answer
for one who breaks off. -/
def serve (backend : Backend) :
    (request : Work.Request) → Option (Reply request.Answer) × Backend
  | .store request => (backend.serveStore request).map (fun answer => some ⟨answer, 0⟩) id
  | .gateway request => backend.serveGateway request
  | .now =>
    let (now, calendar) := backend.calendar.read
    (some ⟨now, 0⟩, { backend with calendar })

end Backend

end Registrar
