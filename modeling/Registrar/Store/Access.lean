import Registrar.Fault
import Registrar.Program
import Registrar.Store

/-!
Access to a store by requests, any of which may fail. A failed call leaves the store as it was.
-/

namespace Registrar.Store

inductive Request where
  | get (key : Bytes)
  | put (key value : Bytes)
  | erase (key : Bytes)
  | exists (key : Bytes)
  | scan (start : Bytes)
  | count (start : Bytes)
  | flush
  deriving DecidableEq, Repr

/-- What a request returns when it does not fail. -/
abbrev Request.Value : Request → Type
  | .get _ => Option Bytes
  | .put _ _ | .erase _ | .flush => Unit
  | .exists _ => Bool
  | .scan _ => List Entry
  | .count _ => Nat

abbrev Request.Answer (request : Request) : Type := Except StoreError request.Value

/-- The interface of programs that use a store only. -/
def Access : Interface := ⟨Request, Request.Answer⟩

/-- Make one request of a store, whose error becomes one of the asking program's own. -/
def ask {ε : Type} (lift : StoreError → ε) (request : Request) : Attempt Access ε request.Value :=
  Attempt.ask (I := Access) request fun (answer : request.Answer) => answer.mapError lift

/-- Count the keys with a common beginning by a scan for them, as any store can. -/
def countByScan {ε : Type} (lift : StoreError → ε) (start : Bytes) : Attempt Access ε Nat := do
  return (← ask lift (.scan start)).length

/-- What a store answers, and the store after it. -/
def serve (store : Store) : (request : Request) → request.Value × Store
  | .get key => (store.get? key, store)
  | .put key value => ((), store.put key value)
  | .erase key => ((), store.erase key)
  | .exists key => (store.contains key, store)
  | .scan start => (store.scan start, store)
  | .count start => (store.count start, store)
  | .flush => ((), store)

/-- The kinds of calls that a fault rule tells apart; counting keys is a scan of them. -/
inductive Operation where
  | get
  | put
  | erase
  | exists
  | scan
  | flush
  deriving DecidableEq, Repr

def Request.operation : Request → Operation
  | .get _ => .get
  | .put _ _ => .put
  | .erase _ => .erase
  | .exists _ => .exists
  | .scan _ | .count _ => .scan
  | .flush => .flush

/-- The key a request is about: for a scan the start of the wanted keys, for a flush no byte. -/
def Request.key : Request → Bytes
  | .get key | .put key _ | .erase key | .exists key => key
  | .scan start | .count start => start
  | .flush => []

/-- Calls of one kind about keys with a common beginning. -/
structure Scope where
  operation : Operation
  start : Bytes
  deriving DecidableEq, Repr

def Scope.covers (request : Request) (scope : Scope) : Bool :=
  scope.operation = request.operation && scope.start.isPrefixOf request.key

abbrev FaultRule := Fault Scope StoreError

/-- A store with the fault rules that stand before it. -/
structure Guarded where
  store : Store
  rules : List FaultRule

instance : Inhabited Guarded := ⟨⟨empty, []⟩⟩

/-- What a store answers behind its fault rules: the error of the rule that is due, without touching
the store, or the store's own answer. -/
def Guarded.serve (guarded : Guarded) (request : Request) : request.Answer × Guarded :=
  match Fault.fire (Scope.covers request) guarded.rules with
  | (some error, rules) => (.error error, ⟨guarded.store, rules⟩)
  | (none, rules) =>
    let (value, store) := guarded.store.serve request
    (.ok value, ⟨store, rules⟩)

end Registrar.Store
