import Registrar.Proofs.Backend.Ground
import Registrar.Proofs.Ledger.Submission

/-!
What each request of a step may be answered by the ledger's gateway. Only a submission changes the
ground. A request that is not answered as the ledger has it fails, and then either the gateway is
faulty or the ledger itself says no.
-/

namespace Registrar.Ledger.Profile

open Gateway (Request)

variable {profile : Profile} {faults : Faults} {g g' : Ground}

/-- The connection that the gateway opens. -/
def connection (profile : Profile) : Connection := ⟨profile.endpoint⟩

/-- The controller that the gateway binds. -/
def bound (profile : Profile) : Controller := ⟨profile.controller⟩

/-- The options to sign with a nonce. -/
def auth (profile : Profile) (nonce : UInt64) : AuthOptions :=
  { sender := profile.admin, nonce, gasLimit := profile.gasLimit, gasPrice }

/-- The nonce that the gateway offers. -/
def offers (profile : Profile) (g : Ground) : Except NonceError UInt64 :=
  g.offeredNonce profile.nonceOverride profile.admin

theorem replies_connect {answer : Request.Answer .connect}
    (h : profile.replies faults g .connect answer g') :
    g' = g ∧ (answer = .ok profile.connection ∨ (faults.gateway ∧ ∃ error, answer = .error error)) := by
  rcases h with ⟨own, ground⟩ | ⟨excuse, same⟩
  · exact ⟨ground, .inl own⟩
  · exact ⟨same, .inr excuse⟩

theorem replies_bindController {answer : Request.Answer (.bindController profile.connection)}
    (h : profile.replies faults g (.bindController profile.connection) answer g') :
    g' = g ∧ (answer = .ok profile.bound ∨ (faults.gateway ∧ ∃ error, answer = .error error)) := by
  rcases h with ⟨own, ground⟩ | ⟨excuse, same⟩
  · simp only [serve, connection, if_true] at own ground
    exact ⟨ground, .inl own⟩
  · exact ⟨same, .inr excuse⟩

theorem replies_makeCommitment {registration : Registration}
    {answer : Request.Answer (.makeCommitment registration profile.bound)}
    (h : profile.replies faults g (.makeCommitment registration profile.bound) answer g') :
    g' = g ∧ (answer = .ok registration.commitment ∨
      (faults.gateway ∧ ∃ error, answer = .error error)) := by
  rcases h with ⟨own, ground⟩ | ⟨excuse, same⟩
  · simp only [serve, guardController, bound, if_true] at own ground
    exact ⟨ground, .inl own⟩
  · exact ⟨same, .inr excuse⟩

theorem replies_authOptions {connection : Connection}
    {answer : Request.Answer (.authOptions connection)}
    (h : profile.replies faults g (.authOptions connection) answer g') :
    g' = g ∧ ((∃ nonce, profile.offers g = .ok nonce ∧ answer = .ok (profile.auth nonce)) ∨
      ((∃ error, answer = .error error) ∧
        (faults.gateway ∨ faults.store ∨ ∃ error, profile.offers g = .error error))) := by
  rcases h with ⟨own, ground⟩ | ⟨⟨faulty, fails⟩, same⟩
  · obtain ⟨offered, kept⟩ := Books.currentNonce_books g profile.nonceOverride profile.admin
    simp only [serve] at own ground
    cases found : g.books.currentNonce profile.nonceOverride profile.admin with
    | mk result books =>
      rw [found] at own ground offered kept
      dsimp only at offered kept
      subst offered
      cases offer : profile.offers g with
      | error error =>
        have offer' : g.offeredNonce profile.nonceOverride profile.admin = .error error := offer
        rw [offer'] at own ground
        exact ⟨ground.trans kept, .inr ⟨⟨_, own⟩, .inr (.inr ⟨error, rfl⟩)⟩⟩
      | ok nonce =>
        have offer' : g.offeredNonce profile.nonceOverride profile.admin = .ok nonce := offer
        rw [offer'] at own ground
        exact ⟨ground.trans kept, .inl ⟨nonce, rfl, own⟩⟩
  · exact ⟨same, .inr ⟨fails, faulty.elim .inl fun store => .inr (.inl store)⟩⟩

/-- What a submission that is signed with a nonce may be answered: it is accepted with the next nonce
of its sender, and leaves the ground alone when it is refused. -/
def Submitted (profile : Profile) (faults : Faults) (g : Ground) (nonce : UInt64) (s : Submission)
    (answer : Except GatewayError TxHandle) (g' : Ground) : Prop :=
  (nonce = g.ledger.minedNonce profile.admin ∧
      answer = .ok (g.ledger.nextTx profile.admin nonce) ∧
      g' = { g with ledger := g.ledger.after profile.admin nonce s }) ∨
    (g' = g ∧ ∃ error, answer = .error error ∧
      (faults.gateway ∨
        (nonce ≠ g.ledger.minedNonce profile.admin ∧ ∃ detail, error = .rejected detail)))

theorem submitted_of_submit {nonce : UInt64} {s : Submission}
    {answer : Except GatewayError TxHandle}
    (own : answer = (g.books.submit (profile.guardController profile.bound
      (g.ledger.submit profile.admin nonce s))).1)
    (ground : g' = (g.books.submit (profile.guardController profile.bound
      (g.ledger.submit profile.admin nonce s))).2.ground) :
    profile.Submitted faults g nonce s answer g' := by
  simp only [guardController, bound, if_true] at own ground
  rcases g.ledger.submit_eq profile.admin nonce s with ⟨same, taken⟩ | ⟨other, detail, refused⟩
  · rw [taken] at own ground
    exact .inl ⟨same, own, ground⟩
  · rw [refused] at own ground
    exact .inr ⟨ground, _, own, .inr ⟨other, detail, rfl⟩⟩

theorem replies_commit {nonce : UInt64} {commitment : Commitment}
    {answer : Request.Answer (.commit (profile.auth nonce) commitment profile.bound)}
    (h : profile.replies faults g (.commit (profile.auth nonce) commitment profile.bound) answer g') :
    profile.Submitted faults g nonce (.commit commitment) answer g' := by
  rcases h with ⟨own, ground⟩ | ⟨⟨faulty, error, fails⟩, same⟩
  · exact submitted_of_submit own ground
  · exact .inr ⟨same, error, fails, .inl faulty⟩

theorem replies_register {nonce : UInt64} {registration : Registration}
    {answer : Request.Answer (.register (profile.auth nonce) registration profile.bound)}
    (h : profile.replies faults g (.register (profile.auth nonce) registration profile.bound)
      answer g') :
    profile.Submitted faults g nonce (.register registration) answer g' := by
  rcases h with ⟨own, ground⟩ | ⟨⟨faulty, error, fails⟩, same⟩
  · exact submitted_of_submit own ground
  · exact .inr ⟨same, error, fails, .inl faulty⟩

theorem replies_renew {nonce duration : UInt64} {fullName : String}
    {answer : Request.Answer (.renew (profile.auth nonce) fullName duration profile.bound)}
    (h : profile.replies faults g (.renew (profile.auth nonce) fullName duration profile.bound)
      answer g') :
    profile.Submitted faults g nonce (.renew fullName duration) answer g' := by
  rcases h with ⟨own, ground⟩ | ⟨⟨faulty, error, fails⟩, same⟩
  · exact submitted_of_submit own ground
  · exact .inr ⟨same, error, fails, .inl faulty⟩

theorem replies_findTx {connection : Connection} {hash : TxHash}
    {answer : Request.Answer (.findTx connection hash)}
    (h : profile.replies faults g (.findTx connection hash) answer g') :
    g' = g ∧ ((∃ tx, g.ledger.tx? hash = some tx ∧ answer = .ok tx.handle) ∨
      ((∃ error, answer = .error error) ∧ (faults.gateway ∨ g.ledger.tx? hash = none))) := by
  rcases h with ⟨own, ground⟩ | ⟨⟨faulty, fails⟩, same⟩
  · simp only [serve, Ground.books] at own ground
    cases found : g.ledger.tx? hash with
    | none =>
      simp only [found] at own ground
      exact ⟨ground, .inr ⟨⟨_, own⟩, .inr rfl⟩⟩
    | some tx =>
      simp only [found] at own ground
      exact ⟨ground, .inl ⟨tx, rfl, own⟩⟩
  · exact ⟨same, .inr ⟨fails, .inl faulty⟩⟩

theorem replies_awaitMined {connection : Connection} {tx : TxHandle}
    {answer : Request.Answer (.awaitMined connection tx)}
    (h : profile.replies faults g (.awaitMined connection tx) answer g') :
    g' = g ∧ ((answer = .ok true ∧ g.ledger.landed tx.hash = true) ∨
      ((answer = .ok false ∨ ∃ error, answer = .error error) ∧
        (faults.gateway ∨ g.ledger.landed tx.hash = false))) := by
  rcases h with ⟨own, ground⟩ | ⟨⟨faulty, fails⟩, same⟩
  · simp only [serve, Ground.books] at own ground
    unfold landed
    cases found : g.ledger.tx? tx.hash with
    | none =>
      simp only [found] at own ground
      exact ⟨ground, .inr ⟨.inr ⟨_, own⟩, .inr rfl⟩⟩
    | some mined =>
      simp only [found] at own ground
      cases success : mined.success with
      | true => exact ⟨ground, .inl ⟨own.trans (congrArg _ success), success⟩⟩
      | false => exact ⟨ground, .inr ⟨.inl (own.trans (congrArg _ success)), .inr success⟩⟩
  · exact ⟨same, .inr ⟨fails, .inl faulty⟩⟩

end Registrar.Ledger.Profile
