import Registrar.Item.Status
import Registrar.Ledger

/-!
Submissions to the ledger. One is accepted with exactly the next nonce of its sender, and rejected with
any other (`submit_eq`). The lemmas on `after` say what an accepted submission changes: its own
transaction is put on record, its nonce is used up if it takes effect, a name once registered keeps its
owner, and the seconds of a name only grow.
-/

namespace Registrar.Ledger

/-- A transaction for the registrar, without the options that it is signed with. -/
inductive Submission where
  | commit (commitment : Commitment)
  | register (registration : Registration)
  | renew (fullName : String) (duration : UInt64)
  deriving DecidableEq

def Submission.phase : Submission → Item.Phase
  | .commit _ => .commit
  | .register _ => .register
  | .renew _ _ => .renew

/-- The ledger's answer to a submission, and the ledger after it. -/
def submit (ledger : Ledger) (sender : Address) (nonce : UInt64) :
    Submission → Except GatewayError (TxHandle × Ledger)
  | .commit commitment => ledger.commit sender nonce commitment
  | .register registration => ledger.register sender nonce registration
  | .renew fullName duration => ledger.renew sender nonce fullName duration

/-- Whether a submission with the right nonce takes effect. -/
def effective (ledger : Ledger) : Submission → Bool
  | .commit _ => true
  | .register registration => ledger.canRegister registration
  | .renew fullName _ => ledger.names.contains fullName

/-- The ledger after an accepted transaction, before the effect of the transaction itself. -/
def included (ledger : Ledger) (sender : Address) (nonce : UInt64) (success : Bool) : Ledger :=
  { ledger with
    block := ledger.block + 1
    nonces := if success then ledger.nonces.set sender (ledger.minedNonce sender + 1)
      else ledger.nonces
    txs := ledger.txs.set (txHash sender nonce (ledger.block + 1))
      ⟨⟨txHash sender nonce (ledger.block + 1), sender, nonce⟩, success⟩ }

theorem accept_eq (ledger : Ledger) (sender : Address) (nonce : UInt64) (success : Bool) :
    (nonce = ledger.minedNonce sender ∧
      ledger.accept sender nonce success =
        .ok (⟨txHash sender nonce (ledger.block + 1), sender, nonce⟩,
          ledger.included sender nonce success)) ∨
      (nonce ≠ ledger.minedNonce sender ∧
        ∃ detail, ledger.accept sender nonce success = .error (.rejected detail)) := by
  by_cases low : nonce < ledger.minedNonce sender
  · refine .inr ⟨UInt64.ne_of_lt low, ?_⟩
    simp only [accept, if_pos low]
    exact ⟨_, rfl⟩
  · by_cases high : ledger.minedNonce sender < nonce
    · refine .inr ⟨(UInt64.ne_of_lt high).symm, ?_⟩
      simp only [accept, if_neg low, if_pos high]
      exact ⟨_, rfl⟩
    · refine .inl ⟨UInt64.le_antisymm (UInt64.not_lt.1 high) (UInt64.not_lt.1 low), ?_⟩
      simp only [accept, if_neg low, if_neg high]
      rfl

/-- The effect of a transaction that was accepted into the last block. -/
def enact (ledger : Ledger) (success : Bool) : Submission → Ledger
  | .commit commitment =>
    { ledger with commitments := ledger.commitments.set commitment ledger.block }
  | .register registration =>
    if success then
      { ledger with
        commitments := ledger.commitments.erase registration.commitment
        names := ledger.names.set registration.fullName
          { owner := registration.account
            ownerAnyAddress := registration.ownerAnyAddress
            spaceId := registration.spaceId
            updatedBlock := ledger.block
            renewedSeconds := 0 } }
    else ledger
  | .renew fullName duration =>
    match ledger.name? fullName with
    | none => ledger
    | some record =>
      { ledger with
        names := ledger.names.set fullName
          { record with
            updatedBlock := ledger.block
            renewedSeconds := saturatingAdd record.renewedSeconds duration } }

/-- The transaction that a submission is accepted as. -/
def nextTx (ledger : Ledger) (sender : Address) (nonce : UInt64) : TxHandle :=
  ⟨txHash sender nonce (ledger.block + 1), sender, nonce⟩

/-- The ledger after it has accepted a submission. -/
def after (ledger : Ledger) (sender : Address) (nonce : UInt64) (s : Submission) : Ledger :=
  (ledger.included sender nonce (ledger.effective s)).enact (ledger.effective s) s

/-- The ledger after it has accepted a submission with the next nonce of its sender. -/
def send (sender : Address) (ledger : Ledger) (s : Submission) : Ledger :=
  ledger.after sender (ledger.minedNonce sender) s

/-- A submission is accepted with exactly the next nonce of its sender, and rejected with any
other. -/
theorem submit_eq (ledger : Ledger) (sender : Address) (nonce : UInt64) (s : Submission) :
    (nonce = ledger.minedNonce sender ∧
      ledger.submit sender nonce s =
        .ok (ledger.nextTx sender nonce, ledger.after sender nonce s)) ∨
      (nonce ≠ ledger.minedNonce sender ∧
        ∃ detail, ledger.submit sender nonce s = .error (.rejected detail)) := by
  rcases ledger.accept_eq sender nonce (ledger.effective s) with ⟨same, taken⟩ | ⟨other, detail, refused⟩
  · refine .inl ⟨same, ?_⟩
    cases s with
    | commit commitment =>
      simp only [effective] at taken
      simp only [submit, commit, taken]
      rfl
    | register registration =>
      simp only [effective] at taken
      simp only [submit, register, taken, after, enact, effective, nextTx]
      by_cases can : ledger.canRegister registration = true <;> simp [can]
    | renew fullName duration =>
      simp only [effective] at taken
      simp only [submit, renew, taken, after, enact, effective, nextTx]
      cases (ledger.included sender nonce (ledger.names.contains fullName)).name? fullName <;> rfl
  · refine .inr ⟨other, detail, ?_⟩
    cases s <;> simp only [effective] at refused <;>
      simp only [submit, commit, register, renew, refused]

/-- Whether a transaction is on record and took effect. -/
def landed (ledger : Ledger) (hash : TxHash) : Bool := (ledger.tx? hash).any (·.success)

variable {ledger : Ledger} {sender account : Address} {nonce : UInt64} {s : Submission}

theorem tx?_after (hash : TxHash) :
    (ledger.after sender nonce s).tx? hash =
      if hash = (ledger.nextTx sender nonce).hash then
        some ⟨ledger.nextTx sender nonce, ledger.effective s⟩
      else ledger.tx? hash := by
  have kept : ((ledger.included sender nonce (ledger.effective s)).enact (ledger.effective s) s).txs =
      (ledger.included sender nonce (ledger.effective s)).txs := by
    cases s with
    | commit commitment => rfl
    | register registration => unfold enact; dsimp only; split <;> rfl
    | renew fullName duration => unfold enact; dsimp only; split <;> rfl
  unfold after tx?
  rw [kept]
  exact Table.find?_set _ _ _ _

theorem landed_after (hash : TxHash) :
    (ledger.after sender nonce s).landed hash =
      if hash = (ledger.nextTx sender nonce).hash then ledger.effective s else ledger.landed hash := by
  unfold landed
  rw [tx?_after]
  split <;> rfl

theorem minedNonce_after :
    (ledger.after sender nonce s).minedNonce account =
      if ledger.effective s = true ∧ account = sender then ledger.minedNonce account + 1
      else ledger.minedNonce account := by
  have kept : ((ledger.included sender nonce (ledger.effective s)).enact (ledger.effective s) s).nonces =
      (ledger.included sender nonce (ledger.effective s)).nonces := by
    cases s with
    | commit commitment => rfl
    | register registration => unfold enact; dsimp only; split <;> rfl
    | renew fullName duration => unfold enact; dsimp only; split <;> rfl
  unfold after
  rw [minedNonce, kept, included]
  by_cases takes : ledger.effective s = true
  · simp only [takes, if_true, Table.find?_set, true_and]
    by_cases own : account = sender
    · subst own; simp
    · simp [own, minedNonce]
  · simp [takes, minedNonce]

theorem name?_after_commit (commitment : Commitment) (name : String) :
    (ledger.after sender nonce (.commit commitment)).name? name = ledger.name? name := rfl

theorem name?_after_register (registration : Registration) (name : String) :
    (ledger.after sender nonce (.register registration)).name? name =
      if ledger.canRegister registration = true ∧ name = registration.fullName then
        some ⟨registration.account, registration.ownerAnyAddress, registration.spaceId,
          ledger.block + 1, 0⟩
      else ledger.name? name := by
  unfold after enact
  by_cases can : ledger.canRegister registration = true
  · simp only [effective, can, if_true, name?, Table.find?_set, true_and]
    rfl
  · simp only [effective, can]
    rfl

theorem name?_after_renew (fullName : String) (duration : UInt64) (name : String) :
    (ledger.after sender nonce (.renew fullName duration)).name? name =
      if name = fullName then
        (ledger.name? fullName).map fun record =>
          { record with
            updatedBlock := ledger.block + 1
            renewedSeconds := saturatingAdd record.renewedSeconds duration }
      else ledger.name? name := by
  have before : (ledger.included sender nonce (ledger.effective (.renew fullName duration))).name? =
      ledger.name? := rfl
  unfold after enact
  dsimp only
  rw [before]
  cases found : ledger.name? fullName with
  | none =>
    by_cases same : name = fullName
    · subst same; simp [before, found]
    · simp [before, same]
  | some record =>
    simp only [name?, Table.find?_set, Option.map_some]
    by_cases same : name = fullName
    · simp [same]; rfl
    · simp only [same, if_false]; rfl

theorem commitment_after_commit (commitment other : Commitment) :
    (ledger.after sender nonce (.commit commitment)).commitments.contains other =
      (decide (other = commitment) || ledger.commitments.contains other) := by
  unfold after enact
  simp only [Table.contains, Table.find?_set]
  by_cases same : other = commitment
  · simp [same]
  · simp only [same, if_false, decide_false, Bool.false_or]; rfl

theorem commitment_after_register (registration : Registration) (other : Commitment) :
    (ledger.after sender nonce (.register registration)).commitments.contains other =
      (ledger.commitments.contains other &&
        !(ledger.canRegister registration && decide (other = registration.commitment))) := by
  unfold after enact
  by_cases can : ledger.canRegister registration = true
  · simp only [effective, can, if_true, Table.contains, Table.find?_erase]
    by_cases same : other = registration.commitment
    · simp [same]
    · simp only [same, if_false, decide_false, Bool.and_false, Bool.not_false, Bool.and_true]
      rfl
  · simp only [effective, can]
    simp
    rfl

theorem commitment_after_renew (fullName : String) (duration : UInt64) (other : Commitment) :
    (ledger.after sender nonce (.renew fullName duration)).commitments.contains other =
      ledger.commitments.contains other := by
  unfold after enact
  dsimp only
  split <;> rfl

theorem canRegister_iff {registration : Registration} :
    ledger.canRegister registration = true ↔
      ledger.commitments.contains registration.commitment = true ∧
        ledger.name? registration.fullName = none := by
  simp [canRegister, Table.contains, name?]

/-- A registration takes effect right after its commitment if the name is free. -/
theorem canRegister_after_commit (registration : Registration) :
    (ledger.after sender nonce (.commit registration.commitment)).canRegister registration =
      (ledger.name? registration.fullName).isNone := by
  unfold canRegister
  rw [commitment_after_commit, decide_eq_true rfl, Bool.true_or, Bool.true_and]
  exact (Option.not_isSome _).trans rfl

end Registrar.Ledger
