import Registrar.Chain
import Registrar.Item.Status

/-!
Queue items. An item is built from a request, keeps what was asked for to its end, and collects the
transactions that were sent for it.
-/

namespace Registrar

namespace Item

/-- The transaction sent in one phase, as far as it is on record. -/
structure Sent where
  hash : Option TxHash
  nonce : Option UInt64
  deriving DecidableEq

def Sent.nothing : Sent := ⟨none, none⟩

end Item

/-- One request on its way through the queue. -/
structure Item where
  index : Int64
  kind : Item.Kind
  fullName : String
  ownerAnyAddress : String
  ownerEthAddress : String
  spaceId : String
  renewDuration : UInt64
  secret : Secret
  status : Item.Status
  commitTx : Item.Sent
  registerTx : Item.Sent
  renewTx : Item.Sent
  dateCreated : UInt64
  dateModified : UInt64
  deriving DecidableEq

/-- A request to register a name for an owner. -/
structure RegisterRequest where
  fullName : String
  ownerAnyAddress : String
  ownerEthAddress : String
  spaceId : String
  deriving DecidableEq

/-- A request to renew a name by some seconds. -/
structure RenewRequest where
  fullName : String
  duration : UInt64
  deriving DecidableEq

/-- A request of either kind. -/
inductive ItemRequest where
  | register (request : RegisterRequest)
  | renew (request : RenewRequest)
  deriving DecidableEq

namespace Item

/-- The item that a request begins as. -/
def ofRequest (index : Int64) (secret : Secret) (now : UInt64) : ItemRequest → Item
  | .register request =>
    { index, kind := .register, fullName := request.fullName
      ownerAnyAddress := request.ownerAnyAddress, ownerEthAddress := request.ownerEthAddress
      spaceId := request.spaceId, renewDuration := 0, secret, status := .initial
      commitTx := .nothing, registerTx := .nothing, renewTx := .nothing
      dateCreated := now, dateModified := now }
  | .renew request =>
    { index, kind := .renew, fullName := request.fullName
      ownerAnyAddress := "", ownerEthAddress := "", spaceId := ""
      renewDuration := request.duration, secret, status := .initial
      commitTx := .nothing, registerTx := .nothing, renewTx := .nothing
      dateCreated := now, dateModified := now }

/-- The transaction of a phase. -/
def sent (item : Item) : Phase → Sent
  | .commit => item.commitTx
  | .register => item.registerTx
  | .renew => item.renewTx

/-- The item with the transaction of a phase on record. -/
def record (item : Item) (tx : TxHandle) : Phase → Item
  | .commit => { item with commitTx := ⟨some tx.hash, some tx.nonce⟩ }
  | .register => { item with registerTx := ⟨some tx.hash, some tx.nonce⟩ }
  | .renew => { item with renewTx := ⟨some tx.hash, some tx.nonce⟩ }

/-- A full name without `.any` at its end, which is taken off once. -/
def firstPart (fullName : String) : String :=
  let chars := fullName.toList
  if [ '.', 'a', 'n', 'y' ].isSuffixOf chars then String.ofList (chars.take (chars.length - 4))
  else fullName

/-- The registration of the item's name for `account`. -/
def registration (item : Item) (account : Address) : Registration :=
  { name := firstPart item.fullName, account, secret := item.secret, fullName := item.fullName
    ownerAnyAddress := item.ownerAnyAddress, spaceId := item.spaceId }

end Item

end Registrar
