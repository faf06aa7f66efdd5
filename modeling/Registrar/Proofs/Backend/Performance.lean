import Registrar.Proofs.Backend.Ground

/-!
Programs at work on a backend. A program is performed request by request until it finishes or breaks
off. To reason about all its performances at once, its progress is described by a mark that moves
along with the answers: a program follows a mark when every request, on whatever ground it is made,
takes the mark through some moves that fit the answer. `perform_follows` turns this into moves over
the ground of a backend.
-/

namespace Registrar

/-- A request with its answer. -/
structure Exchange where
  request : Work.Request
  answer : request.Answer

/-- What the gateway answers to a submission. -/
abbrev Receipt : Type := Except GatewayError TxHandle

/-- The receipt that a request brings, if it is a submission. -/
def receipt : (request : Work.Request) → request.Answer → List Receipt
  | .gateway (.commit _ _ _), answer => [answer]
  | .gateway (.register _ _ _), answer => [answer]
  | .gateway (.renew _ _ _ _), answer => [answer]
  | _, _ => []

def Exchange.receipts (exchange : Exchange) : List Receipt := receipt exchange.request exchange.answer

/-- What came of a program. -/
structure Performance (α : Type) where
  heard : List Exchange
  /-- The value of the program, unless it broke off. -/
  value : Option α
  backend : Backend

namespace Performance

variable {α : Type}

def receipts (performance : Performance α) : List Receipt :=
  performance.heard.flatMap Exchange.receipts

/-- The performance with what was heard before it. -/
def prepend (performance : Performance α) (heard : List Exchange) : Performance α :=
  { performance with heard := heard ++ performance.heard }

@[simp] theorem receipts_prepend (performance : Performance α) (heard : List Exchange) :
    (performance.prepend heard).receipts =
      heard.flatMap Exchange.receipts ++ performance.receipts :=
  List.flatMap_append

end Performance

/-- The transactions among some receipts. -/
def accepted (receipts : List Receipt) : List TxHandle :=
  receipts.filterMap fun receipt => receipt.toOption

/-- Whether a submission was rejected by the ledger. -/
def Receipt.isRejected : Receipt → Bool
  | .error (.rejected _) => true
  | _ => false

namespace Backend

variable {α β : Type}

/-- Take a program through its requests, one after the other. -/
def perform : Program Work α → Backend → Performance α
  | .done value, backend => ⟨[], some value, backend⟩
  | .ask request next, backend =>
    match backend.serve request with
    | (none, after) => ⟨[], none, after⟩
    | (some reply, after) =>
      (perform (next reply.answer) after).prepend [⟨request, reply.answer⟩]

end Backend

/-- Moves of a mark over the ground, with the receipts that come in on the way. -/
abbrev Moves (σ : Type) : Type := Ground → σ → List Receipt → Ground → σ → Prop

/-- One move after the other. -/
inductive Chain {σ : Type} (move : Moves σ) : Ground → σ → List Receipt → Ground → σ → Prop where
  | stay {g mark} : Chain move g mark [] g mark
  | step {g mark receipts g' mark' later g'' mark''} :
      move g mark receipts g' mark' → Chain move g' mark' later g'' mark'' →
      Chain move g mark (receipts ++ later) g'' mark''

namespace Chain

variable {σ : Type} {move other : Moves σ} {g g' g'' : Ground} {mark mark' mark'' : σ}
  {receipts later : List Receipt}

theorem one (h : move g mark receipts g' mark') : Chain move g mark receipts g' mark' := by
  have chain := Chain.step h .stay
  rwa [List.append_nil] at chain

theorem trans (first : Chain move g mark receipts g' mark')
    (second : Chain move g' mark' later g'' mark'') :
    Chain move g mark (receipts ++ later) g'' mark'' := by
  induction first with
  | stay => exact second
  | step moved _ ih =>
    rw [List.append_assoc]
    exact .step moved (ih second)

theorem mono (sub : ∀ g mark receipts g' mark', move g mark receipts g' mark' →
      other g mark receipts g' mark')
    (chain : Chain move g mark receipts g' mark') : Chain other g mark receipts g' mark' := by
  induction chain with
  | stay => exact .stay
  | step moved _ ih => exact .step (sub _ _ _ _ _ moved) ih

/-- What every move keeps is kept by a chain. -/
theorem invariant {holds : Ground → σ → List Receipt → Prop}
    (kept : ∀ {before g mark receipts g' mark'}, holds g mark before →
      move g mark receipts g' mark' → holds g' mark' (before ++ receipts))
    {before : List Receipt} (start : holds g mark before)
    (chain : Chain move g mark receipts g' mark') : holds g' mark' (before ++ receipts) := by
  induction chain generalizing before with
  | stay => rwa [List.append_nil]
  | step moved _ ih =>
    rw [← List.append_assoc]
    exact ih (kept start moved)

end Chain

namespace Program

variable {σ α β ε : Type}

/-- Every request takes the mark along, whatever the ground is when it is made, and the program
finishes with a value and a mark that fit. -/
def Follows (s : Surroundings) (move : Moves σ) (fits : α → σ → Prop) :
    Program Work α → σ → Prop
  | .done value, mark => fits value mark
  | .ask request next, mark => ∀ g answer g', s.Replies g request answer g' →
      ∃ mark', Chain move g mark (receipt request answer) g' mark' ∧
        Follows s move fits (next answer) mark'

variable {s : Surroundings} {move other : Moves σ} {mark : σ}

theorem Follows.bind {program : Program Work α} {f : α → Program Work β} {mid : α → σ → Prop}
    {fits : β → σ → Prop} (first : program.Follows s move mid mark)
    (later : ∀ value mark, mid value mark → (f value).Follows s move fits mark) :
    (program.bind f).Follows s move fits mark := by
  induction program generalizing mark with
  | done value => exact later value mark first
  | ask request next ih =>
    intro g answer g' replies
    obtain ⟨mark', chain, rest⟩ := first g answer g' replies
    exact ⟨mark', chain, ih answer rest⟩

theorem Follows.mono {program : Program Work α} {fits wider : α → σ → Prop}
    (moves : ∀ g mark receipts g' mark', move g mark receipts g' mark' →
      other g mark receipts g' mark')
    (widens : ∀ value mark, fits value mark → wider value mark)
    (follows : program.Follows s move fits mark) : program.Follows s other wider mark := by
  induction program generalizing mark with
  | done value => exact widens value mark follows
  | ask request next ih =>
    intro g answer g' replies
    obtain ⟨mark', chain, rest⟩ := follows g answer g' replies
    exact ⟨mark', chain.mono moves, ih answer rest⟩

end Program

namespace Backend

variable {σ α β : Type} {faults : Faults} {move : Moves σ} {mark : σ}

theorem perform_answered {request : Work.Request} {next : Work.Answer request → Program Work α}
    {backend after : Backend} {reply : Gateway.Reply request.Answer}
    (served : backend.serve request = (some reply, after)) :
    backend.perform (.ask request next) =
      (after.perform (next reply.answer)).prepend [⟨request, reply.answer⟩] := by
  conv => lhs; unfold perform
  rw [served]

theorem perform_broken {request : Work.Request} {next : Work.Answer request → Program Work α}
    {backend after : Backend} (served : backend.serve request = (none, after)) :
    backend.perform (.ask request next) = ⟨[], none, after⟩ := by
  unfold perform
  rw [served]

/-- A program that finishes is performed first, and what comes after it goes on from there. -/
theorem perform_bind {program : Program Work α} {f : α → Program Work β} {backend : Backend}
    {value : α} (finished : (backend.perform program).value = some value) :
    backend.perform (program.bind f) =
      ((backend.perform program).backend.perform (f value)).prepend
        (backend.perform program).heard := by
  induction program generalizing backend with
  | done other => cases finished; rfl
  | ask request next ih =>
    cases served : backend.serve request with
    | mk reply after =>
      cases reply with
      | none =>
        rw [perform_broken served] at finished
        cases finished
      | some reply =>
        rw [perform_answered served] at finished ⊢
        rw [Program.bind, perform_answered served, ih reply.answer finished]
        rfl

/-- What a performance does to the ground is a chain of moves of a mark that the program follows. -/
theorem perform_follows {program : Program Work α} {fits : α → σ → Prop} {backend : Backend}
    (within : backend.Within faults)
    (follows : program.Follows (backend.profile.surroundings faults) move fits mark) :
    (backend.perform program).backend.Within faults ∧
      (backend.perform program).backend.profile = backend.profile ∧
      ((backend.perform program).value = none → faults.breaks) ∧
      ∃ mark', Chain move backend.ground mark (backend.perform program).receipts
          (backend.perform program).backend.ground mark' ∧
        ∀ value, (backend.perform program).value = some value → fits value mark' := by
  induction program generalizing mark backend with
  | done value =>
    refine ⟨within, rfl, nofun, mark, .stay, ?_⟩
    intro other same
    cases same
    exact follows
  | ask request next ih =>
    obtain ⟨kept, same, given, broken⟩ := serve_replies within request
    cases served : backend.serve request with
    | mk reply after =>
      rw [served] at kept same given broken
      cases reply with
      | none =>
        obtain ⟨breaks, ground⟩ := broken rfl
        rw [perform_broken served]
        refine ⟨kept, same, fun _ => breaks, mark, ?_, nofun⟩
        dsimp only at ground ⊢
        rw [ground]
        exact .stay
      | some reply =>
        rw [perform_answered served]
        obtain ⟨mark', chain, rest⟩ := follows _ _ _ (given reply rfl)
        dsimp only at kept same chain
        rw [← same] at rest
        obtain ⟨within', same', breaks, mark'', chain', ends⟩ := ih reply.answer kept rest
        exact ⟨within', same'.trans same, breaks, mark'', chain.trans chain', ends⟩

end Backend

end Registrar
