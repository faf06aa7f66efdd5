import Registrar.Backend

/-!
The store and the ledger without what stands in front of them, and what a request may be answered
there. A request to the store may fail and then leaves everything as it was; a request to the gateway
is answered as the ledger's own gateway does, or fails likewise. `Backend.serve_replies` says that a
backend whose fault rules keep to some faults answers in no other way.
-/

namespace Registrar

/-- The store and the ledger that work on items reads and changes. -/
@[ext] structure Ground where
  store : Store
  ledger : Ledger

/-- What may go wrong. -/
structure Faults where
  /-- Requests to the store may fail. -/
  store : Prop
  /-- Requests to the gateway may fail, and waits for a transaction may end without it. -/
  gateway : Prop
  /-- Whoever makes a request to the gateway may break off. -/
  breaks : Prop

def Faults.none : Faults := ⟨False, False, False⟩

def Ledger.Books.ground (books : Ledger.Books) : Ground := ⟨books.store.store, books.ledger⟩

def Backend.ground (backend : Backend) : Ground := backend.books.ground

/-- A gateway that signs for an account of its own. -/
def Ledger.Profile.sample : Ledger.Profile :=
  { endpoint := "dev://local", admin := .fill 0xad, controller := .fill 0xc0, gasLimit := 500000
    nonceOverride := none }

/-- A backend over an empty store and a ledger without transactions. -/
def Backend.fresh (profile : Ledger.Profile) (calendar : Calendar) (blockTime : UInt64) : Backend :=
  { profile, books := ⟨.fresh blockTime, ⟨.empty, []⟩⟩, foreign := .empty, gatewayRules := [], calendar
    calls := [] }

namespace Ground

/-- The same store and ledger with no fault rule before them. -/
def books (g : Ground) : Ledger.Books := ⟨g.ledger, ⟨g.store, []⟩⟩

/-- The next nonce of an account, by its record or else by the ledger. -/
def nextNonce (g : Ground) (account : Address) : Except NonceError UInt64 :=
  match g.store.get? (Nonce.key account) with
  | none => .ok (g.ledger.minedNonce account)
  | some bytes =>
    match Nonce.Record.layout.decode bytes with
    | .ok record => .ok record.nonce
    | .error fault => .error (.store (.corrupted (String.ofList (Nonce.keyChars account)) fault.message))

/-- The nonce that is offered for an account's next transaction. -/
def offeredNonce (g : Ground) (fixed : Option UInt64) (account : Address) : Except NonceError UInt64 :=
  match fixed with
  | some nonce => .ok nonce
  | none => g.nextNonce account

end Ground

/-- What a gateway may answer, and the store and the ledger after it. -/
abbrev GatewayReplies : Type :=
  Ground → (request : Gateway.Request) → request.Answer → Ground → Prop

/-- What stands behind the work on items. -/
structure Surroundings where
  gateway : GatewayReplies
  storeFails : Prop

/-- What a request may be answered, and the store and the ledger after it. -/
def Surroundings.Replies (s : Surroundings) (g : Ground) :
    (request : Work.Request) → request.Answer → Ground → Prop
  | .now, _, g' => g' = g
  | .store request, answer, g' =>
    (answer = .ok (g.store.serve request).1 ∧ g' = { g with store := (g.store.serve request).2 }) ∨
      (s.storeFails ∧ (∃ error, answer = .error error) ∧ g' = g)
  | .gateway request, answer, g' => s.gateway g request answer g'

/-- The answers that faults allow in the place of the gateway's own. -/
def Faults.Excuse (faults : Faults) : (request : Gateway.Request) → request.Answer → Prop
  | .awaitMined _ _, answer => faults.gateway ∧ (answer = .ok false ∨ ∃ error, answer = .error error)
  | .authOptions _, answer => (faults.gateway ∨ faults.store) ∧ ∃ error, answer = .error error
  | _, answer => faults.gateway ∧ ∃ error, answer = .error error

/-- The gateway of the ledger, with faults. -/
def Ledger.Profile.replies (profile : Ledger.Profile) (faults : Faults) : GatewayReplies :=
  fun g request answer g' =>
    (answer = (profile.serve g.books request).1.answer ∧
      g' = (profile.serve g.books request).2.ground) ∨
      (faults.Excuse request answer ∧ g' = g)

/-- A store and the gateway of the ledger, with faults. -/
def Ledger.Profile.surroundings (profile : Ledger.Profile) (faults : Faults) : Surroundings :=
  ⟨profile.replies faults, faults.store⟩

namespace Fault

variable {κ ε : Type}

theorem fire_fst_mem {covers : κ → Bool} {rules : List (Fault κ ε)} {effect : ε}
    (h : (fire covers rules).1 = some effect) : ∃ rule ∈ rules, rule.effect = effect := by
  induction rules with
  | nil => cases h
  | cons rule rest ih =>
    unfold fire at h
    split at h
    · obtain ⟨found, there, same⟩ := ih h
      exact ⟨found, List.mem_cons_of_mem _ there, same⟩
    · split at h
      · obtain ⟨found, there, same⟩ := ih h
        exact ⟨found, List.mem_cons_of_mem _ there, same⟩
      · exact ⟨rule, List.mem_cons_self, Option.some.inj h⟩

theorem mem_fire_snd {covers : κ → Bool} {rules : List (Fault κ ε)} {rule : Fault κ ε}
    (h : rule ∈ (fire covers rules).2) : ∃ before ∈ rules, before.effect = rule.effect := by
  induction rules with
  | nil => cases h
  | cons first rest ih =>
    unfold fire at h
    split at h
    · rcases List.mem_cons.1 h with rfl | h
      · exact ⟨rule, List.mem_cons_self, rfl⟩
      · obtain ⟨found, there, same⟩ := ih h
        exact ⟨found, List.mem_cons_of_mem _ there, same⟩
    · split at h
      · rcases List.mem_cons.1 h with rfl | h
        · exact ⟨first, List.mem_cons_self, rfl⟩
        · obtain ⟨found, there, same⟩ := ih h
          exact ⟨found, List.mem_cons_of_mem _ there, same⟩
      · rcases List.mem_cons.1 h with rfl | h
        · exact ⟨first, List.mem_cons_self, rfl⟩
        · exact ⟨rule, List.mem_cons_of_mem _ h, rfl⟩

end Fault

/-- The effects of fault rules that keep to some faults. -/
def Faults.Allows (faults : Faults) : Gateway.Effect → Prop
  | .fail _ => faults.gateway
  | .mined success => faults.gateway ∧ success = false
  | .breakOff => faults.breaks

namespace Store

/-- The rules before the store keep to some faults. -/
def Guarded.Within (guarded : Guarded) (faults : Faults) : Prop := guarded.rules ≠ [] → faults.store

theorem Guarded.serve_cases {guarded : Guarded} {faults : Faults} (within : guarded.Within faults)
    (request : Request) :
    (guarded.serve request).2.Within faults ∧
      (((guarded.serve request).1 = .ok (guarded.store.serve request).1 ∧
          (guarded.serve request).2.store = (guarded.store.serve request).2) ∨
        (faults.store ∧ (∃ error, (guarded.serve request).1 = .error error) ∧
          (guarded.serve request).2.store = guarded.store)) := by
  have kept : (Fault.fire (Scope.covers request) guarded.rules).2 ≠ [] → guarded.rules ≠ [] := by
    intro some none
    exact some (by rw [none]; rfl)
  unfold Guarded.serve
  cases fired : Fault.fire (Scope.covers request) guarded.rules with
  | mk effect rules =>
    rw [fired] at kept
    cases effect with
    | none => exact ⟨fun some => within (kept some), .inl ⟨rfl, rfl⟩⟩
    | some error =>
      have present : guarded.rules ≠ [] := by
        intro none
        rw [none] at fired
        cases fired
      exact ⟨fun some => within (kept some), .inr ⟨within present, ⟨error, rfl⟩, rfl⟩⟩

end Store

namespace Nonce

/-- A look-up of a nonce, request by request. -/
theorem run_current (account : Address) :
    (current none account).run = .ask (.store (.get (key account))) fun
      | .error error => .done (.error (.store error))
      | .ok none => .ask (.network account) fun (answer : Except GatewayError UInt64) =>
          .done (answer.mapError .network)
      | .ok (some bytes) => .done <|
          match Record.layout.decode bytes with
          | .ok record => .ok record.nonce
          | .error fault =>
            .error (.store (.corrupted (String.ofList (keyChars account)) fault.message)) := by
  refine congrArg (Program.ask _) (funext fun answer => ?_)
  rcases answer with error | _ | bytes
  · rfl
  · rfl
  · have lifted : Except.mapError NonceError.store (.ok (some bytes)) = .ok (some bytes) := rfl
    simp only [Program.bind, ExceptT.bindCont, lifted]
    cases Record.layout.decode bytes <;> rfl

end Nonce

namespace Ledger.Books

theorem currentNonce_cases {books : Books} {faults : Faults} (within : books.store.Within faults)
    (fixed : Option UInt64) (account : Address) :
    (books.currentNonce fixed account).2.store.Within faults ∧
      (books.currentNonce fixed account).2.ground = books.ground ∧
      ((books.currentNonce fixed account).1 = books.ground.offeredNonce fixed account ∨
        (faults.store ∧ ∃ error, (books.currentNonce fixed account).1 = .error error)) := by
  cases fixed with
  | some nonce => exact ⟨within, rfl, .inl rfl⟩
  | none =>
    obtain ⟨kept, served⟩ := Store.Guarded.serve_cases within (.get (Nonce.key account))
    unfold currentNonce
    rw [Nonce.run_current]
    simp only [Program.runWith, serveNonce]
    rcases served with ⟨answer, same⟩ | ⟨fails, ⟨error, answer⟩, same⟩
    · simp only [answer, Store.serve]
      cases found : books.store.store.get? (Nonce.key account) with
      | none =>
        refine ⟨kept, ?_, .inl ?_⟩
        · simp [Program.runWith, serveNonce, ground, same, Store.serve]
        · simp [Program.runWith, serveNonce, Ground.offeredNonce, Ground.nextNonce, ground, found]
          rfl
      | some bytes =>
        refine ⟨kept, ?_, .inl ?_⟩
        · simp [Program.runWith, ground, same, Store.serve]
        · simp [Program.runWith, Ground.offeredNonce, Ground.nextNonce, ground, found]
    · simp only [answer]
      exact ⟨kept, by simp [Program.runWith, ground, same], .inr ⟨fails, _, rfl⟩⟩

theorem currentNonce_books (g : Ground) (fixed : Option UInt64) (account : Address) :
    (g.books.currentNonce fixed account).1 = g.offeredNonce fixed account ∧
      (g.books.currentNonce fixed account).2.ground = g := by
  obtain ⟨_, same, answer | ⟨fails, _⟩⟩ :=
    @currentNonce_cases g.books .none (fun some => absurd rfl some) fixed account
  · exact ⟨answer, same⟩
  · exact fails.elim

end Ledger.Books

namespace Ledger.Profile

variable {profile : Profile} {faults : Faults}

theorem submit_ground (books : Books) (result : Except GatewayError (TxHandle × Ledger)) :
    (books.submit result).1 = (books.ground.books.submit result).1 ∧
      (books.submit result).2.ground = (books.ground.books.submit result).2.ground ∧
      (books.submit result).2.store = books.store := by
  cases result <;> exact ⟨rfl, rfl, rfl⟩

/-- The gateway of the ledger answers by the ledger and the nonces in the store, whatever stands
before the store. -/
theorem serve_cases {books : Books} (within : books.store.Within faults)
    (request : Gateway.Request) :
    (profile.serve books request).2.store.Within faults ∧
      profile.replies faults books.ground request (profile.serve books request).1.answer
        (profile.serve books request).2.ground := by
  cases request with
  | connect => exact ⟨within, .inl ⟨rfl, rfl⟩⟩
  | bindController connection =>
    unfold replies serve
    dsimp only
    split <;> exact ⟨within, .inl ⟨rfl, rfl⟩⟩
  | makeCommitment registration controller => exact ⟨within, .inl ⟨rfl, rfl⟩⟩
  | authOptions connection =>
    obtain ⟨kept, same, answer⟩ :=
      Books.currentNonce_cases within profile.nonceOverride profile.admin
    obtain ⟨answer', same'⟩ :=
      Books.currentNonce_books books.ground profile.nonceOverride profile.admin
    unfold replies serve
    dsimp only
    cases found : books.currentNonce profile.nonceOverride profile.admin with
    | mk result after =>
      cases found' : books.ground.books.currentNonce profile.nonceOverride profile.admin with
      | mk result' after' =>
        rw [found] at kept same answer
        rw [found'] at answer' same'
        dsimp only at kept same answer answer' same'
        rcases answer with rfl | ⟨fails, error, rfl⟩
        · subst answer'
          cases books.ground.offeredNonce profile.nonceOverride profile.admin with
          | error error => exact ⟨kept, .inl ⟨rfl, same.trans same'.symm⟩⟩
          | ok nonce => exact ⟨kept, .inl ⟨rfl, same.trans same'.symm⟩⟩
        · exact ⟨kept, .inr ⟨⟨.inr fails, _, rfl⟩, same⟩⟩
  | commit auth commitment controller =>
    obtain ⟨answer, ground, store⟩ := submit_ground books
      (profile.guardController controller (books.ledger.commit auth.sender auth.nonce commitment))
    exact ⟨store ▸ within, .inl ⟨answer, ground⟩⟩
  | register auth registration controller =>
    obtain ⟨answer, ground, store⟩ := submit_ground books
      (profile.guardController controller
        (books.ledger.register auth.sender auth.nonce registration))
    exact ⟨store ▸ within, .inl ⟨answer, ground⟩⟩
  | renew auth fullName duration controller =>
    obtain ⟨answer, ground, store⟩ := submit_ground books
      (profile.guardController controller
        (books.ledger.renew auth.sender auth.nonce fullName duration))
    exact ⟨store ▸ within, .inl ⟨answer, ground⟩⟩
  | findTx connection hash =>
    unfold replies serve Books.ground Ground.books
    dsimp only
    split <;> exact ⟨within, .inl ⟨rfl, rfl⟩⟩
  | awaitMined connection tx =>
    unfold replies serve Books.ground Ground.books
    dsimp only
    split <;> exact ⟨within, .inl ⟨rfl, rfl⟩⟩

end Ledger.Profile

namespace Backend

/-- A backend with nothing but the ledger behind it, whose fault rules keep to some faults. -/
structure Within (backend : Backend) (faults : Faults) : Prop where
  native : backend.foreign = .empty
  store : backend.books.store.Within faults
  gateway : ∀ rule ∈ backend.gatewayRules, faults.Allows rule.effect

theorem within_fresh (profile : Ledger.Profile) (calendar : Calendar) (blockTime : UInt64)
    (faults : Faults) : (fresh profile calendar blockTime).Within faults where
  native := rfl
  store rules := absurd rfl rules
  gateway _ there := nomatch there

theorem serveStore_cases {backend : Backend} {faults : Faults} (within : backend.Within faults)
    (request : Store.Request) :
    (backend.serveStore request).2.Within faults ∧
      (backend.serveStore request).2.profile = backend.profile ∧
      (backend.profile.surroundings faults).Replies backend.ground (.store request)
        (backend.serveStore request).1 (backend.serveStore request).2.ground := by
  obtain ⟨kept, served⟩ := Store.Guarded.serve_cases within.store request
  refine ⟨⟨within.native, kept, within.gateway⟩, rfl, ?_⟩
  rcases served with ⟨answer, store⟩ | ⟨fails, answer, store⟩
  · exact .inl ⟨answer, Ground.ext store rfl⟩
  · exact .inr ⟨fails, answer, Ground.ext store rfl⟩

theorem serveChain_cases {backend : Backend} {faults : Faults} (within : backend.Within faults)
    (request : Gateway.Request) :
    (backend.serveChain request).2.Within faults ∧
      (backend.serveChain request).2.profile = backend.profile ∧
      backend.profile.replies faults backend.ground request
        (backend.serveChain request).1.answer (backend.serveChain request).2.ground := by
  obtain ⟨kept, served⟩ := @Ledger.Profile.serve_cases backend.profile faults _ within.store request
  have unknown : ∀ hash, backend.foreign.find? hash = none := fun hash => by
    rw [within.native]; rfl
  cases request <;> simp only [serveChain, unknown] <;>
    exact ⟨⟨within.native, kept, within.gateway⟩, trivial, served⟩

theorem serveUnder_cases {backend : Backend} {faults : Faults} (within : backend.Within faults)
    {effect : Option Gateway.Effect} (allowed : ∀ e, effect = some e → faults.Allows e)
    (request : Gateway.Request) :
    (backend.serveUnder effect request).2.Within faults ∧
      (backend.serveUnder effect request).2.profile = backend.profile ∧
      (∀ reply, (backend.serveUnder effect request).1 = some reply →
        backend.profile.replies faults backend.ground request reply.answer
          (backend.serveUnder effect request).2.ground) ∧
      ((backend.serveUnder effect request).1 = none →
        faults.breaks ∧ (backend.serveUnder effect request).2.ground = backend.ground) := by
  obtain ⟨kept, same, served⟩ := serveChain_cases within request
  have own : ∀ reply, some (backend.serveChain request).1 = some reply →
      backend.profile.replies faults backend.ground request reply.answer
        (backend.serveChain request).2.ground := by
    intro reply given
    cases given
    exact served
  cases effect with
  | none => exact ⟨kept, same, own, fun absent => nomatch absent⟩
  | some e =>
    have allows := allowed e rfl
    cases e with
    | breakOff =>
      refine ⟨within, rfl, fun reply given => ?_, fun _ => ⟨allows, rfl⟩⟩
      cases given
    | fail error =>
      refine ⟨within, rfl, fun reply given => ?_, fun absent => nomatch absent⟩
      cases given
      refine .inr ⟨?_, rfl⟩
      have gateway : faults.gateway := allows
      cases request with
      | awaitMined connection tx => exact ⟨gateway, .inr ⟨error, rfl⟩⟩
      | authOptions connection => exact ⟨.inl gateway, error, rfl⟩
      | _ => exact ⟨gateway, error, rfl⟩
    | mined success =>
      obtain ⟨gateway, rfl⟩ : faults.gateway ∧ success = false := allows
      cases request with
      | awaitMined connection tx =>
        refine ⟨within, rfl, fun reply given => ?_, fun absent => nomatch absent⟩
        cases given
        exact .inr ⟨⟨gateway, .inl rfl⟩, rfl⟩
      | _ => exact ⟨kept, same, own, fun absent => nomatch absent⟩

/-- A backend answers as its store and its ledger do, or with a fault that its rules keep to. -/
theorem serve_replies {backend : Backend} {faults : Faults} (within : backend.Within faults)
    (request : Work.Request) :
    (backend.serve request).2.Within faults ∧
      (backend.serve request).2.profile = backend.profile ∧
      (∀ reply, (backend.serve request).1 = some reply →
        (backend.profile.surroundings faults).Replies backend.ground request reply.answer
          (backend.serve request).2.ground) ∧
      ((backend.serve request).1 = none →
        faults.breaks ∧ (backend.serve request).2.ground = backend.ground) := by
  cases request with
  | store request =>
    obtain ⟨kept, same, served⟩ := serveStore_cases within request
    refine ⟨kept, same, fun reply given => ?_, fun absent => nomatch absent⟩
    cases given
    exact served
  | now =>
    refine ⟨⟨within.native, within.store, within.gateway⟩, rfl, fun reply given => ?_,
      fun absent => nomatch absent⟩
    cases given
    rfl
  | gateway request =>
    let fired := Fault.fire (· == request.operation) backend.gatewayRules
    let noted : Backend :=
      { backend with gatewayRules := fired.2, calls := .gateway request :: backend.calls }
    have kept : noted.Within faults := by
      refine ⟨within.native, within.store, fun rule there => ?_⟩
      obtain ⟨before, there, same⟩ := Fault.mem_fire_snd there
      exact same ▸ within.gateway before there
    have allowed : ∀ e, fired.1 = some e → faults.Allows e := by
      intro e fires
      obtain ⟨rule, there, same⟩ := Fault.fire_fst_mem fires
      exact same ▸ within.gateway rule there
    exact serveUnder_cases kept allowed request

end Backend

end Registrar
