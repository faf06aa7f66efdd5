/-!
Programs over requests. A program is finished with a value, or asks for something and goes on with
the answer, whatever it is. What the answers are is decided by whoever runs it, so one program
covers every behaviour of the store and of the chain behind it.
-/

namespace Registrar

/-- The requests that a program may make, and what answers each of them. -/
structure Interface where
  Request : Type
  Answer : Request → Type

inductive Program (I : Interface) (α : Type) : Type where
  | done (value : α)
  | ask (request : I.Request) (next : I.Answer request → Program I α)

namespace Program

variable {I J : Interface} {α β γ σ : Type}

def bind : Program I α → (α → Program I β) → Program I β
  | .done value, f => f value
  | .ask request next, f => .ask request fun answer => (next answer).bind f

instance : Monad (Program I) where
  pure := .done
  bind := .bind

@[simp] theorem pure_eq (value : α) : (pure value : Program I α) = .done value := rfl

@[simp] theorem done_bind (value : α) (f : α → Program I β) : (Program.done value >>= f) = f value :=
  rfl

@[simp] theorem ask_bind (request : I.Request) (next : I.Answer request → Program I α)
    (f : α → Program I β) :
    (Program.ask request next >>= f) = .ask request fun answer => next answer >>= f := rfl

theorem bind_done (program : Program I α) : program.bind .done = program := by
  induction program with
  | done value => rfl
  | ask request next ih => exact congrArg _ (funext ih)

theorem bind_assoc (program : Program I α) (f : α → Program I β) (g : β → Program I γ) :
    (program.bind f).bind g = program.bind fun value => (f value).bind g := by
  induction program with
  | done value => rfl
  | ask request next ih => exact congrArg _ (funext ih)

instance : LawfulMonad (Program I) :=
  LawfulMonad.mk' _ bind_done (fun _ _ => rfl) bind_assoc

/-- The program that puts another program in the place of each request. -/
def via (f : (request : I.Request) → Program J (I.Answer request)) : Program I α → Program J α
  | .done value => .done value
  | .ask request next => (f request).bind fun answer => (next answer).via f

/-- The value a program finishes with, and the state after it, when each request is answered from
the state at that moment. -/
def runWith (answer : σ → (request : I.Request) → I.Answer request × σ) : Program I α → σ → α × σ
  | .done value, state => (value, state)
  | .ask request next, state =>
    let (reply, state) := answer state request
    (next reply).runWith answer state

theorem runWith_bind (answer : σ → (request : I.Request) → I.Answer request × σ)
    (program : Program I α) (f : α → Program I β) (state : σ) :
    (program.bind f).runWith answer state =
      (f (program.runWith answer state).1).runWith answer (program.runWith answer state).2 := by
  induction program generalizing state with
  | done value => rfl
  | ask request next ih => exact ih _ _

end Program

/-- A program that may fail with an error. -/
abbrev Attempt (I : Interface) (ε α : Type) : Type := ExceptT ε (Program I) α

namespace Attempt

variable {I J : Interface} {ε α : Type}

/-- Make one request and read its answer, which may be a failure. -/
def ask (request : I.Request) (read : I.Answer request → Except ε α) : Attempt I ε α :=
  ExceptT.mk (.ask request fun answer => .done (read answer))

/-- The attempt that ends at once as `result` says. -/
def of (result : Except ε α) : Attempt I ε α := ExceptT.mk (.done result)

/-- The attempt that puts another program in the place of each request. -/
def via (f : (request : I.Request) → Program J (I.Answer request)) (attempt : Attempt I ε α) :
    Attempt J ε α :=
  ExceptT.mk (Program.via f attempt.run)

end Attempt

/-- What comes after one round of a repeated program: another round, or the end. -/
inductive Next (σ α : Type) where
  | again (state : σ)
  | finished (value : α)
  deriving Repr

end Registrar
