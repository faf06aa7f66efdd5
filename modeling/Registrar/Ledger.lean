import Registrar.Chain
import Registrar.Keccak
import Registrar.Table

/-!
The development ledger. An account's transactions carry its next nonce; a transaction with another
nonce is rejected and leaves nothing behind. Every accepted transaction opens a block. One that
breaks a rule of the registrar is dropped: it is on record as not mined, and its nonce stays free.

A name is registered by a registration whose commitment was committed before and that is still free,
which uses the commitment up. A name is renewed once it is registered.
-/

namespace Registrar

namespace Registration

/-- A field behind its length, so that the end of one cannot be taken for the start of the next. -/
def delimited (field : Bytes) : Bytes := Bytes.bigEndian 8 field.length ++ field

/-- The bytes that a commitment is the hash of. -/
def preimage (registration : Registration) : Bytes :=
  delimited (Text.bytes registration.name) ++ delimited registration.account.bytes ++
    delimited registration.secret.bytes ++ delimited (Text.bytes registration.fullName) ++
    delimited (Text.bytes registration.ownerAnyAddress) ++
    delimited (Text.bytes registration.spaceId)

def commitment (registration : Registration) : Commitment :=
  Keccak.hash rfl registration.preimage

end Registration

/-- What the ledger knows of a registered name. -/
structure NameRecord where
  owner : Address
  ownerAnyAddress : String
  spaceId : String
  /-- The block of the registration or of the last renewal. -/
  updatedBlock : UInt64
  /-- The seconds that renewals have added up to. -/
  renewedSeconds : UInt64
  deriving DecidableEq

namespace Ledger

/-- A transaction on record, and whether it took effect. -/
structure Tx where
  handle : TxHandle
  success : Bool
  deriving DecidableEq

/-- The bytes that a transaction's hash is the hash of. -/
def txPreimage (sender : Address) (nonce block : UInt64) : Bytes :=
  sender.bytes ++ Bytes.bigEndian 8 nonce.toNat ++ Bytes.bigEndian 8 block.toNat

def txHash (sender : Address) (nonce block : UInt64) : TxHash :=
  Keccak.hash rfl (txPreimage sender nonce block)

end Ledger

structure Ledger where
  /-- Milliseconds that one sleeps until a transaction is mined. -/
  blockTime : UInt64
  nonces : Table Address UInt64
  commitments : Table Commitment UInt64
  names : Table String NameRecord
  txs : Table TxHash Ledger.Tx
  block : UInt64

namespace Ledger

/-- A ledger without accounts, names and transactions. -/
def fresh (blockTime : UInt64) : Ledger := ⟨blockTime, .empty, .empty, .empty, .empty, 0⟩

/-- The nonce of an account's next transaction: how many of its transactions took effect. -/
def minedNonce (ledger : Ledger) (account : Address) : UInt64 :=
  (ledger.nonces.find? account).getD 0

def name? (ledger : Ledger) (fullName : String) : Option NameRecord := ledger.names.find? fullName

def tx? (ledger : Ledger) (hash : TxHash) : Option Tx := ledger.txs.find? hash

/-- Take a transaction into the next block. Only one that takes effect uses its nonce up. -/
def accept (ledger : Ledger) (sender : Address) (nonce : UInt64) (success : Bool) :
    Except GatewayError (TxHandle × Ledger) :=
  let expected := ledger.minedNonce sender
  if nonce < expected then
    .error (.rejected s!"nonce too low: got {nonce}, expected {expected}")
  else if expected < nonce then
    .error (.rejected s!"nonce too high: got {nonce}, expected {expected}")
  else
    let block := ledger.block + 1
    let handle : TxHandle := ⟨txHash sender nonce block, sender, nonce⟩
    .ok (handle,
      { ledger with
        block
        nonces := if success then ledger.nonces.set sender (expected + 1) else ledger.nonces
        txs := ledger.txs.set handle.hash ⟨handle, success⟩ })

def commit (ledger : Ledger) (sender : Address) (nonce : UInt64) (commitment : Commitment) :
    Except GatewayError (TxHandle × Ledger) :=
  match ledger.accept sender nonce true with
  | .error error => .error error
  | .ok (handle, ledger) =>
    .ok (handle, { ledger with commitments := ledger.commitments.set commitment ledger.block })

/-- Whether a registration would take effect. -/
def canRegister (ledger : Ledger) (registration : Registration) : Bool :=
  ledger.commitments.contains registration.commitment &&
    !ledger.names.contains registration.fullName

def register (ledger : Ledger) (sender : Address) (nonce : UInt64) (registration : Registration) :
    Except GatewayError (TxHandle × Ledger) :=
  let success := ledger.canRegister registration
  match ledger.accept sender nonce success with
  | .error error => .error error
  | .ok (handle, ledger) =>
    if success then
      .ok (handle,
        { ledger with
          commitments := ledger.commitments.erase registration.commitment
          names := ledger.names.set registration.fullName
            { owner := registration.account
              ownerAnyAddress := registration.ownerAnyAddress
              spaceId := registration.spaceId
              updatedBlock := ledger.block
              renewedSeconds := 0 } })
    else .ok (handle, ledger)

def renew (ledger : Ledger) (sender : Address) (nonce : UInt64) (fullName : String)
    (duration : UInt64) : Except GatewayError (TxHandle × Ledger) :=
  match ledger.accept sender nonce (ledger.names.contains fullName) with
  | .error error => .error error
  | .ok (handle, ledger) =>
    match ledger.name? fullName with
    | none => .ok (handle, ledger)
    | some record =>
      .ok (handle,
        { ledger with
          names := ledger.names.set fullName
            { record with
              updatedBlock := ledger.block
              renewedSeconds := saturatingAdd record.renewedSeconds duration } })

end Ledger

end Registrar
