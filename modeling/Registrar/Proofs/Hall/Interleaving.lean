import Mathlib.Logic.Function.Basic
import Registrar.Proofs.Hall.CallProgress
import Registrar.Proofs.Hall.ItemWorkers

/-!
The calls of a hall interleaved. `Positions` say how far every visitor has come, and the worker.
`Hall.Proceeds` is where an event takes them, whatever kind of call makes a request, and
`Hall.Positioned.step` says that every event takes them there. A run of events is `Hall.Undivided` when calls
give way to others only where they wait for an answer: until a call does so, nothing else happens
(`Hall.Positioned.idle`).
-/

namespace Registrar

open Node (Leaving)

/-- How far a visitor has come. -/
inductive Station where
  | adding (stage : Adding)
  | running (status : RunStatus)
  | closing (leaving : Leaving)

/-- How far everybody has come. -/
structure Positions where
  stations : Nat → Station
  worker : Working

namespace Positions

variable {positions : Positions} {n m : Nat} {station : Station}

/-- The positions when a visitor has come to a station. -/
def move (positions : Positions) (n : Nat) (station : Station) : Positions :=
  { positions with stations := Function.update positions.stations n station }

@[simp] theorem move_self : (positions.move n station).stations n = station := Function.update_self ..

theorem move_apart (apart : m ≠ n) : (positions.move n station).stations m = positions.stations m :=
  Function.update_of_ne apart ..

theorem move_same (positions : Positions) (n : Nat) : positions.move n (positions.stations n) = positions :=
  congrArg (Positions.mk · positions.worker) (Function.update_eq_self ..)

end Positions

/-- A request of a visitor, with the station that its answer leads to. -/
inductive Passing (options : Queue.Options) : Station → Service.Exchange → Station → Prop where
  | add {request stage exchange stage'} : Adds request stage exchange stage' →
      Passing options (.adding stage) exchange (.adding stage')
  | run {status exchange status'} : RunSteps options status exchange status' →
      Passing options (.running status) exchange (.running status')
  | close {leaving exchange leaving'} : Shuts leaving exchange leaving' →
      Passing options (.closing leaving) exchange (.closing leaving')

namespace Station

/-- Where a visitor begins. -/
inductive First : Station → Prop where
  | add : First (.adding .drawing)
  | run : First (.running .fresh)
  | close : First (.closing .signalling)

/-- The station of a visitor who has answered. -/
def leave : Station → Station
  | .running status => .running status.leave
  | station => station

/-- Whether the queue is claimed by the visitor. -/
def holds : Station → Bool
  | .running status => status.holds
  | _ => false

/-- Whether others may have their turns at the station. -/
def idle : Station → Bool
  | .adding _ | .running (.scanning _) | .closing .awaiting | .closing .flushing => true
  | _ => false

/-- Whether the visitor has begun, and has to go on before anybody else has a turn. -/
def hurried : Station → Bool
  | .running (.failed _) | .closing .taking => true
  | _ => false

/-- What a visitor has been told. -/
def Told (own : List Service.Exchange) : Station → Prop
  | .adding _ => True
  | .running status => status.Told own
  | .closing .signalling => own = []
  | .closing _ => own ≠ []

theorem holds_leave (station : Station) : station.leave.holds = station.holds := by
  cases station with
  | running status => exact status.holds_leave
  | _ => rfl

end Station

/-- A task whose next request may keep it waiting. -/
def Task.paused {σ α : Type} (task : Task σ α) : Bool :=
  match task.program with
  | .ask request _ => Service.Request.awaits request
  | .done _ => false

/-- How far the task of a run has come. -/
structure Task.Plies (options : Queue.Options) (task : Task Queue.RunStage (Except QueueError Unit))
    (status : RunStatus) : Prop where
  program : task.program.Abides (RunSteps options) (RunStatus.Ends options) status
  round : ∀ (resume : Resume) searches,
    Item.Status.resumeBuckets.length ≤ searches + resume.buckets.length →
    (task.round (.resuming resume)).Abides (RunSteps options) (RunStatus.Ends options) (.scanning searches)

namespace Visit

/-- The next request of the visitor may keep it waiting, or there is none. -/
def paused : Visit → Bool
  | .adding _ task => task.paused
  | .running task => task.paused
  | .closing task => task.paused
  | .added _ _ | .ran _ | .closed _ => true

def answered : Visit → Bool
  | .added _ _ | .ran _ | .closed _ => true
  | .adding _ _ | .running _ | .closing _ => false

/-- The visitor is at a station. -/
inductive At (options : Queue.Options) : Visit → Station → Prop where
  | adding {request task stage} :
      task.program.Abides (Adds request) (fun _ _ => True) stage →
      At options (.adding request task) (.adding stage)
  | added {request answer stage} : At options (.added request answer) (.adding stage)
  | running {task status} : task.Plies options status → At options (.running task) (.running status)
  | ran {answer} {status : RunStatus} : status.Answers options answer →
      At options (.ran answer) (.running status.leave)
  | closing {task leaving} :
      task.program.Abides Shuts (fun _ leaving => leaving = .gone) leaving →
      At options (.closing task) (.closing leaving)
  | closed {answer} : At options (.closed answer) (.closing .gone)

end Visit

section

variable {options : Queue.Options} {station station' : Station} {exchange : Service.Exchange}
  {own : List Service.Exchange}

theorem Shuts.idle {leaving leaving' : Leaving} (shuts : Shuts leaving exchange leaving')
    (awaits : exchange.request.awaits = true) : (Station.closing leaving).idle = true := by
  cases shuts with
  | signal | lead => cases awaits
  | await | flush => rfl

theorem RunSteps.idle {status status' : RunStatus} (steps : RunSteps options status exchange status')
    (awaits : exchange.request.awaits = true) : (Station.running status).idle = true := by
  cases steps with
  | claim | release | hire => cases awaits
  | search | serve => rfl

theorem Passing.told (passing : Passing options station exchange station') (told : station.Told own) :
    station'.Told (own ++ [exchange]) := by
  cases passing with
  | add => trivial
  | run steps => exact steps.told told
  | close shuts => cases shuts <;> (try split) <;> exact List.concat_ne_nil _ _

theorem Station.Told.leave (told : station.Told own) : station.leave.Told own := by
  cases station with
  | running status => exact RunStatus.Told.leave told
  | adding | closing => exact told

theorem Station.idle_of_hurried (hurried : station.hurried = true) : station.idle = false := by
  cases station with
  | adding => cases hurried
  | running status => cases status <;> first | rfl | cases hurried
  | closing leaving => cases leaving <;> first | rfl | cases hurried

theorem Station.Told.nonempty (told : station.Told own) (hurried : station.hurried = true) :
    own ≠ [] := by
  cases station with
  | adding => cases hurried
  | running status =>
    apply RunStatus.Told.nonempty told
    rintro rfl
    cases hurried
  | closing leaving =>
    cases leaving with
    | taking => exact told
    | signalling | awaiting | flushing | gone => cases hurried

theorem Station.First.told (first : station.First) : station.Told [] := by
  cases first with
  | add => trivial
  | run | close => exact rfl

theorem Task.move_of_paused {σ α : Type} {move : σ → Service.Exchange → σ → Prop} {τ : Type}
    {fits : Next τ α → σ → Prop} {mark : σ} {task : Task τ α}
    (abides : task.program.Abides move fits mark) (paused : task.paused = true) :
    ∃ exchange mark', exchange.request.awaits = true ∧ move mark exchange mark' := by
  unfold Task.paused at paused
  split at paused
  · rename_i request next asks
    rw [asks] at abides
    obtain ⟨answer, mark', moved⟩ := abides.move
    exact ⟨⟨request, answer⟩, mark', paused, moved⟩
  · cases paused

theorem Visit.At.of_adding {request : ItemRequest} {task : Task Empty (Except QueueError Int64)}
    (stands : (Visit.adding request task).At options station) : ∃ stage, station = .adding stage ∧
      task.program.Abides (Adds request) (fun _ _ => True) stage := by
  cases stands with
  | adding abides => exact ⟨_, rfl, abides⟩

theorem Visit.At.of_running {task : Task Queue.RunStage (Except QueueError Unit)}
    (stands : (Visit.running task).At options station) :
    ∃ status, station = .running status ∧ task.Plies options status := by
  cases stands with
  | running plies => exact ⟨_, rfl, plies⟩

theorem Visit.At.of_closing {task : Task Empty (Except QueueError Unit)}
    (stands : (Visit.closing task).At options station) : ∃ leaving, station = .closing leaving ∧
      task.program.Abides Shuts (fun _ leaving => leaving = .gone) leaving := by
  cases stands with
  | closing abides => exact ⟨_, rfl, abides⟩

theorem Visit.At.of_ran {answer : Except QueueError Unit}
    (stands : (Visit.ran answer).At options station) :
    ∃ status : RunStatus, station = .running status.leave ∧ status.Answers options answer := by
  cases stands with
  | ran answers => exact ⟨_, rfl, answers⟩

theorem Visit.At.unanswered {visit : Visit} (stands : visit.At options station)
    (hurried : station.hurried = true) : visit.answered = false := by
  cases stands with
  | adding | running | closing => rfl
  | added | closed => cases hurried
  | @ran answer status answers => cases status <;> cases hurried

/-- A visitor who waits for an answer is at a station where others may have their turns. -/
theorem Visit.At.idle {visit : Visit} (stands : visit.At options station)
    (unanswered : visit.answered = false) (paused : visit.paused = true) : station.idle = true := by
  cases stands with
  | adding => rfl
  | running plies =>
    obtain ⟨exchange, status', awaits, steps⟩ := Task.move_of_paused plies.program paused
    exact steps.idle awaits
  | closing abides =>
    obtain ⟨exchange, leaving', awaits, shuts⟩ := Task.move_of_paused abides paused
    exact shuts.idle awaits
  | added | ran | closed => cases unanswered

end

namespace Hall

/-- What a visitor has asked and been told. -/
def own (hall : Hall) (n : Nat) : List Service.Exchange := (linesOf hall.log n).map (·.exchange)

/-- A visitor has begun, and does not give way yet. -/
def midway (hall : Hall) (n : Nat) : Bool :=
  !(hall.own n).isEmpty && hall.visits[n]?.any (!·.paused)

/-- Nobody but the visitor who does not give way yet has a turn. -/
def Admits (hall : Hall) (event : Event) : Prop :=
  ∀ n < hall.visits.length, hall.midway n = true → event.mover = some n

instance (hall : Hall) (event : Event) : Decidable (hall.Admits event) :=
  inferInstanceAs (Decidable (∀ n < hall.visits.length, hall.midway n = true → event.mover = some n))

/-- Calls give way to others only where they wait for an answer. -/
def Undivided : Hall → List Event → Prop
  | _, [] => True
  | hall, event :: events => hall.Admits event ∧ (hall.step event).Undivided events

instance : (hall : Hall) → (events : List Event) → Decidable (hall.Undivided events)
  | _, [] => isTrue trivial
  | hall, event :: events =>
    have := instDecidableUndivided (hall.step event) events
    inferInstanceAs (Decidable (hall.Admits event ∧ (hall.step event).Undivided events))

/-- The visitors and the worker have come as far as the positions say. -/
structure Positioned (options : Queue.Options) (hall : Hall) (positions : Positions) : Prop where
  settings : hall.world.options = options
  visits : ∀ (n : Nat) visit, hall.visits[n]? = some visit → visit.At options (positions.stations n)
  told : ∀ n, (positions.stations n).Told (hall.own n)
  absent : ∀ n, hall.visits.length ≤ n → positions.stations n = .adding .drawing ∧ hall.own n = []
  resting : hall.world.worker = .absent → positions.worker = .resting
  staff : ∀ task, hall.world.worker = .live task → task.Labours options.skipProcessing positions.worker

/-- Where an event takes a hall and the positions. -/
inductive Proceeds (options : Queue.Options) (hall : Hall) (positions : Positions) :
    Option Nat → Hall → Positions → Prop where
  /-- A visitor comes in. -/
  | enters {n station later} : positions.stations n = .adding .drawing → station.First →
      later.world = hall.world → later.log = hall.log →
      Proceeds options hall positions none later (positions.move n station)
  /-- A visitor answers. -/
  | leaves {n later} : later.world = hall.world → later.log = hall.log →
      Proceeds options hall positions (some n) later (positions.move n (positions.stations n).leave)
  /-- Nobody gets any further. -/
  | rests {mover clock later} : later.world = { hall.world with clock } → later.log = hall.log →
      Proceeds options hall positions mover later positions
  /-- A visitor makes a request. -/
  | asks {n chance since exchange station later} :
      World.Answers chance since hall.world exchange later.world →
      Passing options (positions.stations n) exchange station →
      later.log = hall.log ++ [⟨.visitor n, hall.world, exchange⟩] →
      Proceeds options hall positions (some n) later (positions.move n station)
  /-- The worker makes a request. -/
  | works {task task' chance since exchange after working later} : hall.world.worker = .live task →
      World.Answers chance since hall.world exchange after →
      Works options.skipProcessing positions.worker exchange working →
      later.world = { after with worker := .live task' } →
      later.log = hall.log ++ [⟨.worker hall.hand, hall.world, exchange⟩] →
      Proceeds options hall positions none later { positions with worker := working }
  /-- The worker begins with its next round. -/
  | begins {task task' later} : hall.world.worker = .live task →
      later.world = { hall.world with worker := .live task' } → later.log = hall.log →
      Proceeds options hall positions none later { positions with worker := .resting }
  /-- The worker stops. -/
  | ends {task later} : hall.world.worker = .live task → positions.worker = .leaving →
      later.world = hall.world.endWorker → later.log = hall.log →
      Proceeds options hall positions none later positions

section

variable {σ α : Type} {hall later : Hall} {options : Queue.Options} {positions : Positions} {n m : Nat}
  {line : Line} {station : Station} {visit : Visit}

theorem own_same (log : later.log = hall.log) : later.own m = hall.own m := by
  unfold own
  rw [log]

theorem own_apart (log : later.log = hall.log ++ [line]) (apart : line.caller ≠ .visitor m) :
    later.own m = hall.own m := by
  unfold own
  rw [log, linesOf_other apart]

theorem own_asked (log : later.log = hall.log ++ [line]) (caller : line.caller = .visitor n) :
    later.own n = hall.own n ++ [line.exchange] := by
  unfold own
  rw [log, linesOf_own caller, List.map_append]
  rfl

/-- A visitor is at another station, and everybody else where they were. -/
theorem Positioned.goes (positioned : hall.Positioned options positions) (bound : n < hall.visits.length)
    (visits : later.visits = hall.visits.set n visit) (stands : visit.At options station)
    (told : station.Told (later.own n)) (others : ∀ m ≠ n, later.own m = hall.own m)
    (settings : later.world.options = hall.world.options)
    (resting : later.world.worker = .absent → hall.world.worker = .absent)
    (staff : ∀ task, later.world.worker = .live task →
      task.Labours options.skipProcessing positions.worker) :
    later.Positioned options (positions.move n station) where
  settings := settings.trans positioned.settings
  visits m other found := by
    rw [visits] at found
    rcases Orderly.set_eq found with ⟨rfl, rfl⟩ | ⟨apart, before⟩
    · rw [Positions.move_self]
      exact stands
    · rw [Positions.move_apart apart]
      exact positioned.visits m other before
  told m := by
    by_cases same : m = n
    · subst same
      rw [Positions.move_self]
      exact told
    · rw [Positions.move_apart same, others m same]
      exact positioned.told m
  absent m past := by
    rw [visits, List.length_set] at past
    have apart : m ≠ n := by omega
    rw [Positions.move_apart apart, others m apart]
    exact positioned.absent m past
  resting absent := positioned.resting (resting absent)
  staff := staff

/-- A visitor comes in. -/
theorem Positioned.enter (positioned : hall.Positioned options positions) (first : station.First)
    (stands : visit.At options station) :
    (hall.enter visit).Positioned options (positions.move hall.visits.length station) where
  settings := positioned.settings
  visits m other found := by
    rcases Orderly.enter_eq found with ⟨rfl, rfl⟩ | before
    · rw [Positions.move_self]
      exact stands
    · have apart := Nat.ne_of_lt (List.getElem?_eq_some_iff.1 before).1
      rw [Positions.move_apart apart]
      exact positioned.visits m other before
  told m := by
    by_cases same : m = hall.visits.length
    · subst same
      have silent : (hall.enter visit).own hall.visits.length = [] :=
        (positioned.absent _ (Nat.le_refl _)).2
      rw [Positions.move_self, silent]
      exact first.told
    · rw [Positions.move_apart same]
      exact positioned.told m
  absent m past := by
    have longer : (hall.enter visit).visits.length = hall.visits.length + 1 := List.length_append
    rw [longer] at past
    rw [Positions.move_apart (by omega)]
    exact positioned.absent m (by omega)
  resting := positioned.resting
  staff := positioned.staff

/-- The turn of a visitor, whatever kind of call it makes. -/
theorem Positioned.advance {goOn : Task σ α → Visit} {leave : α → Visit}
    (positioned : hall.Positioned options positions) (chance : Chance) {task : Task σ α}
    (found : hall.visits[n]? = some (goOn task))
    (ends : ∀ value, task.program = .done (.finished value) →
      (leave value).At options (positions.stations n).leave)
    (again : ∀ state, task.program = .done (.again state) →
      (goOn { task with since := hall.world.clock, program := task.round state }).At options
        (positions.stations n))
    (asks : ∀ request next answer, task.program = .ask request next →
      Service.Exchange.Possible hall.world.store ⟨request, answer⟩ →
      ∃ station, Passing options (positions.stations n) ⟨request, answer⟩ station ∧
        (goOn { task with since := hall.world.clock, program := next answer }).At options station) :
    ∃ positions', (hall.advance n (hall.world.act chance task) goOn leave).Positioned options positions' ∧
      Proceeds options hall positions (some n)
        (hall.advance n (hall.world.act chance task) goOn leave) positions' := by
  obtain ⟨bound, -⟩ := List.getElem?_eq_some_iff.1 found
  have acts := hall.world.acts chance task
  generalize hall.world.act chance task = act at acts ⊢
  cases acts with
  | @finished value finishes =>
    refine ⟨positions.move n (positions.stations n).leave, ?_, .leaves rfl rfl⟩
    exact positioned.goes bound rfl (ends value finishes) (positioned.told n).leave (fun _ _ => rfl) rfl id
      positioned.staff
  | @began state finishes =>
    refine ⟨positions, ?_, .rests rfl rfl⟩
    rw [← positions.move_same n]
    exact positioned.goes bound rfl (again state finishes) (positioned.told n) (fun _ _ => rfl) rfl id
      positioned.staff
  | @asked request next answer after asked answers =>
    obtain ⟨station, passing, stands⟩ := asks request next answer asked answers.possible
    refine ⟨positions.move n station, ?_, .asks answers passing rfl⟩
    refine positioned.goes bound rfl stands ?_ (fun m apart => ?_) answers.options (fun absent => ?_)
      fun task live => ?_
    · rw [own_asked rfl rfl]
      exact passing.told (positioned.told n)
    · exact own_apart rfl fun same => apart (Caller.visitor.inj same).symm
    · rcases answers.worker with same | ⟨-, -, started⟩
      · exact same.symm.trans absent
      · cases started.symm.trans absent
    · rcases answers.worker with same | ⟨-, absent, started⟩
      · exact positioned.staff task (same.symm.trans live)
      · cases started.symm.trans live
        rw [positioned.resting absent, ← positioned.settings]
        exact ⟨Queue.abides_working _ (), Queue.abides_working _⟩
  | waits => exact ⟨positions, positioned, .rests rfl rfl⟩

/-- The turn of the worker. -/
theorem Positioned.labour (positioned : hall.Positioned options positions) (chance : Chance)
    {task : Task Unit Unit} (live : hall.world.worker = .live task) :
    ∃ positions', (hall.labour (hall.world.act chance task)).Positioned options positions' ∧
      Proceeds options hall positions none (hall.labour (hall.world.act chance task)) positions' := by
  have labours := positioned.staff task live
  have acts := hall.world.acts chance task
  generalize hall.world.act chance task = act at acts ⊢
  cases acts with
  | finished finishes =>
    have ended := labours.program
    rw [finishes] at ended
    refine ⟨positions, ?_, .ends live ended rfl rfl⟩
    exact ⟨positioned.settings, positioned.visits, positioned.told, positioned.absent, nofun, nofun⟩
  | @began state finishes =>
    refine ⟨{ positions with worker := .resting }, ?_, .begins live rfl rfl⟩
    refine ⟨positioned.settings, positioned.visits, positioned.told, positioned.absent, nofun, ?_⟩
    intro task' same
    cases same
    exact ⟨labours.round state, labours.round⟩
  | @asked request next answer after asks answers =>
    have abides := labours.program
    rw [asks] at abides
    obtain ⟨working, works, rest⟩ := abides hall.world.store answer answers.possible
    refine ⟨{ positions with worker := working }, ?_, .works live answers works rfl rfl⟩
    have own : ∀ m, (hall.labour (.asked ⟨request, answer⟩ after
        { task with since := hall.world.clock, program := next answer })).own m = hall.own m :=
      fun m => own_apart rfl nofun
    refine ⟨answers.options.trans positioned.settings, positioned.visits, ?_, ?_, nofun, ?_⟩
    · intro m
      rw [own]
      exact positioned.told m
    · intro m past
      rw [own]
      exact positioned.absent m past
    · intro task' same
      cases same
      exact ⟨rest, labours.round⟩
  | waits => exact ⟨positions, positioned, .rests rfl rfl⟩

/-- The turn of a visitor. -/
theorem Positioned.turn (positioned : hall.Positioned options positions) (chance : Chance) (n : Nat) :
    ∃ positions', (hall.step (.turn n chance)).Positioned options positions' ∧
      Proceeds options hall positions (some n) (hall.step (.turn n chance)) positions' := by
  simp only [Hall.step]
  split
  · rename_i request task found
    obtain ⟨stage, same, abides⟩ := (positioned.visits n _ found).of_adding
    refine positioned.advance chance found (fun value finishes => ?_) (fun state => state.elim)
      fun request next answer asks possible => ?_
    · rw [same]
      exact .added
    · rw [asks] at abides
      obtain ⟨stage', adds, rest⟩ := abides _ answer possible
      rw [same]
      exact ⟨_, .add adds, .adding rest⟩
  · rename_i task found
    obtain ⟨status, same, plies⟩ := (positioned.visits n _ found).of_running
    have abides := plies.program
    refine positioned.advance chance found (fun value finishes => ?_) (fun state again => ?_)
      fun request next answer asks possible => ?_
    · rw [finishes] at abides
      rw [same]
      exact .ran abides
    · rw [again] at abides
      cases state with
      | claiming => exact abides.elim
      | resuming resume =>
        obtain ⟨searches, rfl, enough⟩ := abides
        rw [same]
        exact .running ⟨plies.round resume searches enough, plies.round⟩
    · rw [asks] at abides
      obtain ⟨status', steps, rest⟩ := abides _ answer possible
      rw [same]
      exact ⟨_, .run steps, .running ⟨rest, plies.round⟩⟩
  · rename_i task found
    obtain ⟨leaving, same, abides⟩ := (positioned.visits n _ found).of_closing
    refine positioned.advance chance found (fun value finishes => ?_) (fun state => state.elim)
      fun request next answer asks possible => ?_
    · rw [finishes] at abides
      obtain rfl : leaving = .gone := abides
      rw [same]
      exact .closed
    · rw [asks] at abides
      obtain ⟨leaving', shuts, rest⟩ := abides _ answer possible
      rw [same]
      exact ⟨_, .close shuts, .closing rest⟩
  all_goals exact ⟨positions, positioned, .rests rfl rfl⟩

/-- Every event takes the positions along. -/
theorem Positioned.step (positioned : hall.Positioned options positions) (event : Event) :
    ∃ positions', (hall.step event).Positioned options positions' ∧
      Proceeds options hall positions event.mover (hall.step event) positions' := by
  have free := (positioned.absent hall.visits.length (Nat.le_refl _)).1
  cases event with
  | add request fits =>
    refine ⟨_, positioned.enter .add (.adding ?_), .enters free .add rfl rfl⟩
    exact (Queue.abides_add request).bind fun _ _ _ => trivial
  | run =>
    refine ⟨_, positioned.enter .run (.running ?_), .enters free .run rfl rfl⟩
    rw [positioned.settings]
    exact ⟨Queue.abides_firstRound, fun _ _ => Queue.abides_scanRound⟩
  | close =>
    refine ⟨_, positioned.enter .close (.closing ?_), .enters free .close rfl rfl⟩
    exact Queue.abides_shutting.bind fun _ _ gone => gone
  | turn n chance => exact positioned.turn chance n
  | work chance =>
    simp only [Hall.step, Event.mover]
    split
    · exact positioned.labour chance ‹_›
    all_goals exact ⟨positions, positioned, .rests rfl rfl⟩
  | wait duration =>
    refine ⟨positions, ?_, .rests rfl rfl⟩
    exact ⟨positioned.settings, positioned.visits, positioned.told, positioned.absent, positioned.resting,
      positioned.staff⟩

/-- Whoever has to go on and does not move was there before. -/
theorem Proceeds.stays {mover : Option Nat} {positions' : Positions}
    (proceeds : Proceeds options hall positions mover later positions') (other : mover ≠ some n)
    (hurried : (positions'.stations n).hurried = true) : positions'.stations n = positions.stations n := by
  cases proceeds with
  | @enters m station later free first =>
    apply Positions.move_apart
    rintro rfl
    rw [Positions.move_self] at hurried
    cases first <;> cases hurried
  | leaves | asks =>
    apply Positions.move_apart
    rintro rfl
    exact other rfl
  | rests | works | begins | ends => rfl

/-- The hall of a queue that was just built. -/
theorem positioned_start (clock : Nat) (backend : Backend) (secrets : Nat → Secret) (drawn : Nat)
    (options : Queue.Options) :
    (start (.build clock backend secrets drawn options)).Positioned options
      ⟨fun _ => .adding .drawing, .resting⟩ where
  settings := rfl
  visits _ _ found := by cases found
  told _ := trivial
  absent _ _ := ⟨rfl, rfl⟩
  resting _ := rfl
  staff _ live := by cases live

/-- Whoever has begun and does not move is at a station where others may have their turns. -/
theorem Positioned.idle {event : Event} (positioned : hall.Positioned options positions)
    (admits : hall.Admits event) (found : hall.visits[n]? = some visit) (begun : hall.own n ≠ [])
    (unanswered : visit.answered = false) (other : event.mover ≠ some n) :
    (positions.stations n).idle = true := by
  obtain ⟨bound, -⟩ := List.getElem?_eq_some_iff.1 found
  have still : hall.midway n = false := by
    cases midway : hall.midway n with
    | false => rfl
    | true => exact absurd (admits n bound midway) other
  have paused : visit.paused = true := by
    unfold midway at still
    rw [List.isEmpty_eq_false_iff.2 begun, found] at still
    simpa using still
  exact (positioned.visits n visit found).idle unanswered paused

/-- Whoever has to go on is the only one to have a turn. -/
theorem Positioned.alone {event : Event} (positioned : hall.Positioned options positions)
    (admits : hall.Admits event) (hurried : (positions.stations n).hurried = true) :
    event.mover = some n := by
  apply Classical.byContradiction
  intro other
  have begun := (positioned.told n).nonempty hurried
  cases found : hall.visits[n]? with
  | none => exact begun (positioned.absent n (List.getElem?_eq_none_iff.1 found)).2
  | some visit =>
    have unanswered := (positioned.visits n visit found).unanswered hurried
    have idle := positioned.idle admits found begun unanswered other
    cases idle.symm.trans (Station.idle_of_hurried hurried)

end

end Hall

end Registrar
