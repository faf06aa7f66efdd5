import Registrar.Gateway
import Registrar.Ledger
import Registrar.Nonce
import Registrar.Sleep

/-!
The gateway of the development ledger. It serves one endpoint and one controller, signs for one
administrator, and takes every nonce from the books or, where they have none, from the ledger.
Transactions are mined as they are sent, so only waiting for one takes time.
-/

namespace Registrar.Ledger

/-- What a gateway serves and signs with. -/
structure Profile where
  endpoint : String
  admin : Address
  controller : Address
  gasLimit : UInt64
  nonceOverride : Option UInt64
  deriving DecidableEq

/-- The gas price offered in all transactions. -/
def gasPrice : Amount := BitVec.ofNat 256 2000000000

/-- The ledger and the store that hold what a gateway works on. -/
structure Books where
  ledger : Ledger
  store : Store.Guarded

/-- How a look-up of a nonce is answered: the network's next nonce is the ledger's, for nothing is
ever pending. -/
def Books.serveNonce (books : Books) :
    (request : Nonce.Request) → request.Answer × Books
  | .store request =>
    let (answer, store) := books.store.serve request
    (answer, { books with store })
  | .network account => (.ok (books.ledger.minedNonce account), books)

/-- The next nonce of an account, by the books. -/
def Books.currentNonce (books : Books) (fixed : Option UInt64) (account : Address) :
    Except NonceError UInt64 × Books :=
  (Nonce.current fixed account).run.runWith Books.serveNonce books

/-- The answer to a request that only the gateway's own controller may be asked. -/
def Profile.guardController {α : Type} (profile : Profile) (controller : Controller)
    (answer : Except GatewayError α) : Except GatewayError α :=
  if controller.address = profile.controller then answer
  else .error (.controller s!"unknown controller {controller.address.render}")

/-- The answer to a submission, and the books with the ledger after it. -/
def Books.submit (books : Books) (result : Except GatewayError (TxHandle × Ledger)) :
    Except GatewayError TxHandle × Books :=
  match result with
  | .error error => (.error error, books)
  | .ok (handle, ledger) => (.ok handle, { books with ledger })

open Gateway (Reply)

def unknownTx (hash : TxHash) : GatewayError := .txNotFound hash.render

/-- What the gateway answers, and the books after it. -/
def Profile.serve (profile : Profile) (books : Books) :
    (request : Gateway.Request) → Reply request.Answer × Books
  | .connect => (⟨.ok ⟨profile.endpoint⟩, 0⟩, books)
  | .bindController connection =>
    if connection.endpoint = profile.endpoint then (⟨.ok ⟨profile.controller⟩, 0⟩, books)
    else (⟨.error (.connection s!"unknown endpoint {connection.endpoint}"), 0⟩, books)
  | .makeCommitment registration controller =>
    (⟨profile.guardController controller (.ok registration.commitment), 0⟩, books)
  | .authOptions _ =>
    match books.currentNonce profile.nonceOverride profile.admin with
    | (.error error, books) => (⟨.error (.authOptions error.message), 0⟩, books)
    | (.ok nonce, books) =>
      (⟨.ok { sender := profile.admin, nonce, gasLimit := profile.gasLimit, gasPrice }, 0⟩, books)
  | .commit auth commitment controller =>
    let (answer, books) := books.submit <|
      profile.guardController controller (books.ledger.commit auth.sender auth.nonce commitment)
    (⟨answer, 0⟩, books)
  | .register auth registration controller =>
    let (answer, books) := books.submit <|
      profile.guardController controller (books.ledger.register auth.sender auth.nonce registration)
    (⟨answer, 0⟩, books)
  | .renew auth fullName duration controller =>
    let (answer, books) := books.submit <|
      profile.guardController controller
        (books.ledger.renew auth.sender auth.nonce fullName duration)
    (⟨answer, 0⟩, books)
  | .findTx _ hash =>
    match books.ledger.tx? hash with
    | some tx => (⟨.ok tx.handle, 0⟩, books)
    | none => (⟨.error (unknownTx hash), 0⟩, books)
  | .awaitMined _ tx =>
    match books.ledger.tx? tx.hash with
    | some mined => (⟨.ok mined.success, Sleep.lasting books.ledger.blockTime.toNat⟩, books)
    | none => (⟨.error (unknownTx tx.hash), 0⟩, books)

end Registrar.Ledger
