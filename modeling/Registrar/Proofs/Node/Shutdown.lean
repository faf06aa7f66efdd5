import Registrar.Proofs.Hall.WorkerDismissal

/-!
Shutdowns as they are performed. A program whose answer is read in another way is performed as the program
itself (`World.call_map`), so what a performed shutdown comes to may happen in a hall
(`Node.comes_shutdown`). That a shutdown has returned does not yet mean that the worker is at rest
(`Node.not_shutdown_final`).
-/

namespace Registrar

variable {σ α β : Type}

namespace Next

def map (f : α → β) : Next σ α → Next σ β
  | .again state => .again state
  | .finished value => .finished (f value)

end Next

/-- The task that ends with another value. -/
def Task.map (f : α → β) (task : Task σ α) : Task σ β where
  since := task.since
  program := task.program.bind fun next => .done (next.map f)
  round state := (task.round state).bind fun next => .done (next.map f)

theorem Task.once_map (f : α → β) (clock : Nat) (program : Program Service α) :
    Task.once clock (program.bind fun value => .done (f value)) = (Task.once clock program).map f := by
  unfold once map
  congr 1
  · rw [Program.bind_assoc, Program.bind_assoc]
    rfl
  · funext state
    exact state.elim

namespace World

variable (f : α → β) (world : World) (task : Task σ α)

def Turn.map : Turn σ α → Turn σ β
  | .finished value => .finished (f value)
  | .moved world task => .moved world (task.map f)
  | .waits => .waits
  | .brokeOff world => .brokeOff world

theorem turn_map : world.turn (task.map f) = (world.turn task).map f := by
  obtain ⟨since, program, round⟩ := task
  unfold turn
  by_cases late : world.clock < since
  · rw [if_pos late]
    exact if_pos late
  · rw [if_neg late]
    refine (if_neg late).trans ?_
    cases program with
    | done next => cases next <;> rfl
    | ask request next =>
      simp only [Task.map, Program.bind]
      cases world.poll since request <;> rfl

theorem alarm_map : world.alarm (task.map f) = world.alarm task := by
  obtain ⟨since, program, round⟩ := task
  unfold alarm
  cases program with
  | done next => rfl
  | ask request next => cases request <;> rfl

theorem nextAlarm_map : world.nextAlarm (task.map f) = world.nextAlarm task := by
  unfold nextAlarm
  rw [alarm_map]

theorem settle_map (steps : Nat) (phase : Phase) :
    settle steps phase world (task.map f) =
      ((settle steps phase world task).1.map f, (settle steps phase world task).2) := by
  induction steps generalizing phase world task with
  | zero => rfl
  | succ steps ih =>
    cases phase with
    | worker =>
      unfold settle
      cases world.workerTurn with
      | none => exact ih ..
      | some world => exact ih ..
    | client =>
      unfold settle
      rw [turn_map]
      cases world.turn task with
      | finished | brokeOff => rfl
      | moved world task => exact ih ..
      | waits => exact ih ..
    | clock =>
      unfold settle
      rw [turn_map]
      cases world.turn task with
      | finished | brokeOff => rfl
      | moved world task => exact ih ..
      | waits =>
        dsimp only [Turn.map]
        rw [nextAlarm_map]
        cases world.nextAlarm task with
        | none => rfl
        | some clock => exact ih ..

/-- A program that answers otherwise is performed as the program itself. -/
theorem call_map (program : Program Service α) :
    world.call (program.bind fun value => .done (f value)) =
      ((world.call program).1.map f, (world.call program).2) := by
  unfold call perform
  rw [Task.once_map]
  exact settle_map ..

end World

namespace Node

theorem run_leave (limit : Nat) : (leave limit).run =
    (stop limit).run.bind fun answer => .done (answer.mapError NodeError.cause) := rfl

/-- A shutdown answers what its visitor does. -/
theorem call_leave (node : Node) : node.world.call (leave (patience node.settings)).run =
    (node.shutdown.1.map (·.mapError NodeError.cause), node.shutdown.2.world) := by
  rw [run_leave, World.call_map]
  rfl

/-- What a shutdown that is performed has come to may happen in a hall that covers the world, where a
visitor shuts the node down. -/
theorem comes_shutdown {faults : Faults} {hall : Hall} {node : Node} (whole : ¬ faults.breaks)
    (covers : hall.world.Covers node.world) (within : node.world.backend.Within faults) :
    ∃ events : List Hall.Event, (¬ faults.store → ∀ event ∈ events, event.Steady) ∧
      let later := events.foldl Hall.step (step node.settings hall .shutdown)
      later.world.Covers node.shutdown.2.world ∧ node.shutdown.2.world.backend.Within faults ∧
        ∀ answer, node.shutdown.1 = .finished answer →
          closed later hall.visits.length = some (answer.mapError NodeError.cause) := by
  have visiting : Hall.Visiting .closing .closed :=
    ⟨fun hall n task chance found => by simp only [Hall.step, found]⟩
  have like : (Task.once hall.world.clock (leave (patience node.settings)).run).Covers
      (Task.once node.world.clock (leave (patience node.settings)).run) :=
    ⟨rfl, rfl, covers.clock.le⟩
  have performs := Hall.performs_enter visiting whole like covers within 0
  change Hall.Performs _ _ _ _ _ (node.world.call (leave (patience node.settings)).run) at performs
  rw [call_leave] at performs
  obtain ⟨events, steady, covers', within', visit, visits, stands⟩ := performs
  refine ⟨events, steady, covers', within', ?_⟩
  intro answer ended
  have gone : visit = .closed (answer.mapError NodeError.cause) := by
    rw [ended] at stands
    exact stands
  have found : (events.foldl Hall.step (step node.settings hall .shutdown)).visits[hall.visits.length]? =
      some visit := by
    change (events.foldl Hall.step (hall.enter _)).visits[_]? = _
    rw [visits]
    exact List.getElem?_set_self (by simp [Hall.enter])
  unfold closed
  rw [found, gone]

/-- The calls of a node that are made one after the other, with time that passes in between. -/
inductive Call where
  | start
  | add (request : ItemRequest)
  | shutdown
  | wait (duration : Nat)

/-- The node after a call. -/
def after (node : Node) : Call → Node
  | .start => node.start.2
  | .add request => { node with world := (node.world.call (Queue.add request).run).2 }
  | .shutdown => node.shutdown.2
  | .wait duration => { node with world := (node.world.call (Service.ask (.pause duration))).2 }

deriving instance DecidableEq for World.Outcome

set_option maxRecDepth 8000 in
/-- A worker that waits for a block may outlast a shutdown, and goes on with its item when the block is
there. -/
theorem not_shutdown_final :
    ¬ ∀ (settings : Settings) (calendar : Calendar) (secrets : Nat → Secret) (calls : List Call)
        (duration : Nat),
      let node := calls.foldl after (wire settings calendar secrets)
      let shut := node.shutdown.2
      node.shutdown.1 = .finished (.ok ()) →
        (shut.after (.wait duration)).world.backend.calls = shut.world.backend.calls := by
  intro final
  let settings : Settings :=
    { Settings.default with adminAddress := .fill 0xAD, blockTime := 60000, shutdownTimeout := 1 }
  let calls : List Call := [.start, .add (.renew ⟨"a.any", 1⟩), .wait 100]
  have goesOn : let node := calls.foldl after (wire settings ⟨7, 1⟩ fun _ => .fill 1)
      let shut := node.shutdown.2
      node.shutdown.1 = .finished (.ok ()) ∧
        (shut.after (.wait 60000)).world.backend.calls ≠ shut.world.backend.calls := by
    decide +kernel
  exact goesOn.2 (final settings ⟨7, 1⟩ (fun _ => .fill 1) calls 60000 goesOn.1)

end Node
end Registrar
