import Registrar.Layout.Amount

/-!
What is exchanged with a chain: connections, the registrar's controller, options for signing a
transaction, transactions by their handles, and the arguments that a commitment is made of.
-/

namespace Registrar

/-- Why a call on a chain gateway failed. -/
inductive GatewayError where
  | connection (detail : String)
  | controller (detail : String)
  | rejected (detail : String)
  | txNotFound (detail : String)
  | authOptions (detail : String)
  | waitAborted (detail : String)
  | other (detail : String)
  deriving DecidableEq, Repr

def GatewayError.message : GatewayError → String
  | .connection detail => s!"Connection failed: {detail}"
  | .controller detail => s!"Controller unavailable: {detail}"
  | .rejected detail => s!"Transaction rejected: {detail}"
  | .txNotFound detail => s!"Transaction not found: {detail}"
  | .authOptions detail => s!"Auth options unavailable: {detail}"
  | .waitAborted detail => s!"Wait for mining aborted: {detail}"
  | .other detail => s!"Gateway error: {detail}"

/-- An open connection to a chain. -/
structure Connection where
  endpoint : String
  deriving DecidableEq

/-- The registrar's controller contract, as bound over a connection. -/
structure Controller where
  address : Address
  deriving DecidableEq

/-- Options for signing one transaction; `nonce` is the number it will carry. -/
structure AuthOptions where
  sender : Address
  nonce : UInt64
  gasLimit : UInt64
  gasPrice : Amount
  deriving DecidableEq

/-- A transaction that a chain has accepted, by its hash. -/
structure TxHandle where
  hash : TxHash
  sender : Address
  nonce : UInt64
  deriving DecidableEq

/-- What a name is registered with. The commitment is made of the same six values that the
registration reveals. -/
structure Registration where
  /-- The name without its last part. -/
  name : String
  account : Address
  secret : Secret
  fullName : String
  ownerAnyAddress : String
  spaceId : String
  deriving DecidableEq

namespace TxHandle

def layout : Layout TxHandle :=
  ((Layout.fixed .txHash).pair ((Layout.fixed .address).pair Layout.word)).imap
    (fun (hash, sender, nonce) => ⟨hash, sender, nonce⟩)
    (fun tx => (tx.hash, tx.sender, tx.nonce))

end TxHandle

namespace AuthOptions

def layout : Layout AuthOptions :=
  ((Layout.fixed .address).pair (Layout.word.pair (Layout.word.pair Amount.layout))).imap
    (fun (sender, nonce, gasLimit, gasPrice) => ⟨sender, nonce, gasLimit, gasPrice⟩)
    (fun auth => (auth.sender, auth.nonce, auth.gasLimit, auth.gasPrice))

end AuthOptions

end Registrar
