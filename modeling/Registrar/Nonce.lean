import Registrar.Chain
import Registrar.Store.Access

/-!
The next nonce of an account. A fixed nonce, where one is configured, answers every lookup; else the
record of the account answers, and only for an account without a record the network is asked. A
record is written by `save` and lives under a key of its own in the shared store.
-/

namespace Registrar

/-- Why a nonce could not be found or saved. -/
inductive NonceError where
  | store (error : StoreError)
  | network (error : GatewayError)
  deriving DecidableEq, Repr

def NonceError.message : NonceError → String
  | .store error => error.message
  | .network error => error.message

namespace Nonce

/-- The nonce that the next transaction of an account carries. -/
structure Record where
  address : Address
  nonce : UInt64
  deriving DecidableEq

def Record.layout : Layout Record :=
  ((Layout.fixed .address).pair Layout.word).imap
    (fun (address, nonce) => ⟨address, nonce⟩) (fun record => (record.address, record.nonce))

/-- How the keys of all nonce records begin. -/
def keyStart : List Char := ['n', 'o', 'n', 'c', 'e', ':']

/-- The text of an account's key. -/
def keyChars (account : Address) : List Char := keyStart ++ account.chars

def key (account : Address) : Bytes := Text.Utf8.encode (keyChars account)

inductive Request where
  | store (request : Store.Request)
  | network (account : Address)

abbrev Request.Answer : Request → Type
  | .store request => request.Answer
  | .network _ => Except GatewayError UInt64

/-- The interface of lookups, which may ask the store and the network. -/
def Access : Interface := ⟨Request, Request.Answer⟩

/-- A program over the store alone, as one that might also have asked the network. -/
def onStore {α : Type} (attempt : Attempt Store.Access NonceError α) :
    Attempt Access NonceError α :=
  attempt.via fun request => .ask (.store request) .done

/-- The record of an account. -/
def find (account : Address) : Attempt Store.Access NonceError (Option Record) := do
  match ← Store.ask .store (.get (key account)) with
  | none => return none
  | some bytes =>
    match Record.layout.decode bytes with
    | .ok record => return some record
    | .error fault =>
      throw (.store (.corrupted (String.ofList (keyChars account)) fault.message))

/-- Put a record in the place of the one for its account. -/
def upsert (record : Record) : Attempt Store.Access NonceError Unit :=
  Store.ask .store (.put (key record.address) (Record.layout.write record))

/-- What the network says is the next nonce of an account. -/
def ofNetwork (account : Address) : Attempt Access NonceError UInt64 :=
  Attempt.ask (.network account) fun (answer : Except GatewayError UInt64) =>
    answer.mapError .network

/-- The next nonce of an account, `fixed` being the configured one if there is any. -/
def current (fixed : Option UInt64) (account : Address) : Attempt Access NonceError UInt64 := do
  match fixed with
  | some nonce => return nonce
  | none =>
    match ← onStore (find account) with
    | some record => return record.nonce
    | none => ofNetwork account

/-- Make `nonce` the next one of an account. -/
def save (account : Address) (nonce : UInt64) : Attempt Store.Access NonceError UInt64 := do
  upsert ⟨account, nonce⟩
  return nonce

end Nonce

end Registrar
