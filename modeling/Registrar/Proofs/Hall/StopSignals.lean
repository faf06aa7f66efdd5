import Mathlib.Data.List.TakeWhile
import Registrar.Proofs.Hall.RunningFlag

/-!
Who has told the worker to stop. `Hall.stopCallers` are the visitors who did so after it was started, in
that order; `Hall.StopSignals` says that the first of them gets to wait for the worker, and goes on only when
it has stopped, and that a worker whom nobody has told to stop since it started goes on.
-/

namespace Registrar

open Node (Leaving)

namespace Hall

/-- A worker was started. -/
def Line.hires (line : Line) : Bool :=
  match line.exchange with
  | ⟨.startWorker, true⟩ => true
  | _ => false

/-- The visitor who tells the worker to stop. -/
def Line.stopCaller? (line : Line) : Option Nat :=
  match line.caller, line.exchange with
  | .visitor n, ⟨.signalStop, _⟩ => some n
  | _, _ => none

/-- How many workers were started. -/
def hires (log : List Line) : Nat := log.countP (·.hires)

/-- The visitors who have told the worker to stop since it was started. -/
def stopCallers (log : List Line) : List Nat := (log.dropWhile (!·.hires)).filterMap (·.stopCaller?)

end Hall

/-- Whether a request is about the worker. -/
def Service.Request.tends : Service.Request → Bool
  | .startWorker | .signalStop | .takeWorker => true
  | _ => false

section

variable {chance : Chance} {since : Nat} {world after : World} {exchange : Service.Exchange}

/-- The other requests leave the worker, and what it was told, as they are. -/
theorem World.Answers.untended (answers : World.Answers chance since world exchange after)
    (other : exchange.request.tends = false) : after.worker = world.worker ∧
      after.told = world.told ∧ after.workerHeld = world.workerHeld := by
  cases answers <;> first | exact ⟨rfl, rfl, rfl⟩ | cases other

theorem Adds.untended {request : ItemRequest} {stage stage' : Adding}
    (adds : Adds request stage exchange stage') : exchange.request.tends = false := by
  cases adds <;> rfl

theorem Works.untended {skip : Bool} {working working' : Working}
    (works : Works skip working exchange working') : exchange.request.tends = false := by
  cases works <;> rfl

/-- The worker leaves only when it was told to. -/
theorem Works.dismissed {skip : Bool} {working : Working} (works : Works skip working exchange .leaving)
    (answers : World.Answers chance since world exchange after) : world.told = true := by
  generalize left : Working.leaving = working' at works
  cases works with
  | @receive answer =>
    cases answer with
    | none =>
      cases answers with
      | dismiss told => exact told
    | some index => cases left
  | @get index answer =>
    unfold Working.fetched at left
    split at left
    · split at left <;> cases left
    all_goals cases left
  | serve => cases left

end

namespace Hall

variable {log : List Line} {line : Line}

theorem Line.unhired (other : line.exchange.request.tends = false) : line.hires = false := by
  obtain ⟨caller, world, request, answer⟩ := line
  cases request <;> first | rfl | cases other

theorem Line.unsignalled (other : line.exchange.request.tends = false) : line.stopCaller? = none := by
  obtain ⟨caller, world, request, answer⟩ := line
  cases caller with
  | worker => rfl
  | visitor => cases request <;> first | rfl | cases other

theorem hires_append : hires (log ++ [line]) = hires log + line.hires.toNat := by
  unfold hires
  rw [List.countP_append, List.countP_singleton]
  cases line.hires <;> rfl

/-- Nobody is counted before the worker was started. -/
theorem stopCallers_append : stopCallers (log ++ [line]) =
    if hires log = 0 then [] else stopCallers log ++ line.stopCaller?.toList := by
  unfold stopCallers hires
  induction log with
  | nil =>
    cases hires : line.hires with
    | false => simp [hires]
    | true =>
      have unsignalled : line.stopCaller? = none := by
        obtain ⟨caller, world, request, answer⟩ := line
        cases caller <;> cases request <;> first | rfl | cases hires
      simp [hires, unsignalled]
  | cons first log ih =>
    cases hires : first.hires with
    | false => simpa [hires] using ih
    | true =>
      have begun : (first :: log).countP (·.hires) ≠ 0 := by simp [hires]
      have stops (rest : List Line) : (first :: rest).dropWhile (!·.hires) = first :: rest := by
        simp [hires]
      rw [if_neg begun, List.cons_append, stops, stops, ← List.cons_append, List.filterMap_append]
      cases h : line.stopCaller? <;> simp [h]

theorem stopCallers_of_unhired (none : hires log = 0) : stopCallers log = [] := by
  unfold stopCallers
  have all : log.dropWhile (!·.hires) = [] := by
    rw [List.dropWhile_eq_nil_iff]
    intro line there
    simpa using List.countP_eq_zero.1 none line there
  rw [all]
  rfl

/-- A request that is not about the worker leaves those counts as they are. -/
theorem counts_untended (other : line.exchange.request.tends = false) :
    hires (log ++ [line]) = hires log ∧ stopCallers (log ++ [line]) = stopCallers log := by
  constructor
  · rw [hires_append, Line.unhired other]
    rfl
  · rw [stopCallers_append, Line.unsignalled other, Option.toList_none, List.append_nil]
    split
    · exact (stopCallers_of_unhired ‹_›).symm
    · rfl

end Hall

/-- What holds of the worker at the place of the first who told it to stop. -/
def Node.Leaving.Led (world : World) : Leaving → Prop
  | .signalling => False
  | .taking => world.workerHeld = true
  | .awaiting => True
  | .flushing | .gone => world.worker = .stopped

theorem Node.Leaving.Led.keep {world after : World} {leaving : Leaving} (led : leaving.Led world)
    (held : after.workerHeld = world.workerHeld)
    (stopped : world.worker = .stopped → after.worker = .stopped) : leaving.Led after := by
  cases leaving with
  | signalling => exact led
  | taking => exact held.trans led
  | awaiting => trivial
  | flushing | gone => exact stopped led

namespace Hall

variable {hall later : Hall} {options : Queue.Options} {positions positions' : Positions} {mover : Option Nat}
  {n : Nat} {station : Station}

/-- How those who tell the worker to stop stand with it. -/
structure StopSignals (hall : Hall) (positions : Positions) : Prop where
  absent : hall.world.worker = .absent → hires hall.log = 0
  present : hall.world.worker ≠ .absent → hires hall.log = 1
  told : hall.world.worker ≠ .absent → (hall.world.told = true ↔ stopCallers hall.log ≠ [])
  held : hall.world.worker ≠ .absent → stopCallers hall.log = [] → hall.world.workerHeld = true
  lead : ∀ n rest, stopCallers hall.log = n :: rest →
    ∃ leaving : Leaving, positions.stations n = .closing leaving ∧ leaving.Led hall.world
  taking : ∀ n, positions.stations n = .closing .taking → hall.world.worker ≠ .absent →
    stopCallers hall.log ≠ []
  leaves : positions.worker = .leaving → hall.world.worker ≠ .absent ∧ hall.world.told = true
  stopped : hall.world.worker = .stopped → hall.world.told = true

namespace StopSignals

theorem present_of_lead {rest : List Nat} (signals : hall.StopSignals positions)
    (lead : stopCallers hall.log = n :: rest) : hall.world.worker ≠ .absent := by
  intro absent
  cases lead.symm.trans (stopCallers_of_unhired (signals.absent absent))

/-- The worker is not told anything. -/
theorem keep (signals : hall.StopSignals positions)
    (counts : hires later.log = hires hall.log ∧ stopCallers later.log = stopCallers hall.log)
    (worker : later.world.worker = .absent ↔ hall.world.worker = .absent)
    (told : later.world.told = hall.world.told)
    (held : hall.world.worker ≠ .absent → stopCallers hall.log = [] → later.world.workerHeld = true)
    (lead : ∀ n rest, stopCallers hall.log = n :: rest →
      ∃ leaving : Leaving, positions'.stations n = .closing leaving ∧ leaving.Led later.world)
    (taking : ∀ n, positions'.stations n = .closing .taking → positions.stations n = .closing .taking)
    (leaves : positions'.worker = .leaving → hall.world.worker ≠ .absent ∧ hall.world.told = true)
    (stopped : later.world.worker = .stopped → hall.world.told = true) : later.StopSignals positions' where
  absent absent := counts.1.trans (signals.absent (worker.1 absent))
  present present := counts.1.trans (signals.present (mt worker.2 present))
  told present := by
    rw [told, counts.2]
    exact signals.told (mt worker.2 present)
  held present none := held (mt worker.2 present) (counts.2.symm.trans none)
  lead n rest first := lead n rest (counts.2.symm.trans first)
  taking n takes present := by
    rw [counts.2]
    exact signals.taking n (taking n takes) (mt worker.2 present)
  leaves left := by
    rw [told]
    exact ⟨mt worker.1 (leaves left).1, (leaves left).2⟩
  stopped ended := told.trans (stopped ended)

/-- A visitor goes on, and the worker is as before. -/
theorem goes (signals : hall.StopSignals positions)
    (counts : hires later.log = hires hall.log ∧ stopCallers later.log = stopCallers hall.log)
    (world : later.world.worker = hall.world.worker ∧ later.world.told = hall.world.told ∧
      later.world.workerHeld = hall.world.workerHeld)
    (led : ∀ leaving : Leaving, hall.world.worker ≠ .absent → positions.stations n = .closing leaving →
      leaving.Led hall.world → ∃ leaving' : Leaving, station = .closing leaving' ∧ leaving'.Led later.world)
    (taking : station = .closing .taking → positions.stations n = .closing .taking) :
    later.StopSignals (positions.move n station) := by
  obtain ⟨worker, told, held⟩ := world
  apply signals.keep counts (by rw [worker]) told
  · intro present none
    exact held.trans (signals.held present none)
  · intro m rest first
    obtain ⟨leaving, same, holds⟩ := signals.lead m rest first
    by_cases own : m = n
    · subst own
      rw [Positions.move_self]
      exact led leaving (signals.present_of_lead first) same holds
    · rw [Positions.move_apart own]
      exact ⟨leaving, same, holds.keep held fun ended => worker.trans ended⟩
  · intro m takes
    by_cases own : m = n
    · subst own
      rw [Positions.move_self] at takes
      exact taking takes
    · rwa [Positions.move_apart own] at takes
  · exact signals.leaves
  · intro ended
    exact signals.stopped (worker.symm.trans ended)

/-- A visitor tells the worker to stop. -/
theorem signal (signals : hall.StopSignals positions) (begins : positions.stations n = .closing .signalling)
    (world : later.world = { hall.world with told := true })
    (log : later.log = hall.log ++ [⟨.visitor n, hall.world, ⟨.signalStop, ()⟩⟩]) :
    later.StopSignals (positions.move n (.closing .taking)) := by
  have hired : hires later.log = hires hall.log := by
    rw [log, hires_append]
    rfl
  have first : hall.world.worker ≠ .absent → stopCallers later.log = stopCallers hall.log ++ [n] := by
    intro present
    rw [log, stopCallers_append, if_neg (by rw [signals.present present]; decide)]
    rfl
  have some : hall.world.worker ≠ .absent → stopCallers later.log ≠ [] := by
    intro present
    rw [first present]
    exact List.concat_ne_nil _ _
  have worker : later.world.worker = hall.world.worker := by rw [world]
  constructor
  · rw [worker, hired]
    exact signals.absent
  · rw [worker, hired]
    exact signals.present
  · rw [worker, world]
    exact fun present => iff_of_true rfl (some present)
  · rw [worker]
    exact fun present none => absurd none (some present)
  · intro m rest heads
    by_cases absent : hall.world.worker = .absent
    · rw [log, stopCallers_append, if_pos (signals.absent absent)] at heads
      cases heads
    · rw [first absent] at heads
      cases before : stopCallers hall.log with
      | nil =>
        rw [before] at heads
        cases heads
        refine ⟨.taking, Positions.move_self, ?_⟩
        rw [world]
        exact signals.held absent before
      | cons lead others =>
        rw [before] at heads
        cases heads
        obtain ⟨leaving, same, led⟩ := signals.lead m others before
        have apart : m ≠ n := by
          rintro rfl
          cases begins.symm.trans same
          exact led
        rw [Positions.move_apart apart]
        refine ⟨leaving, same, led.keep (by rw [world]) ?_⟩
        rw [worker]
        exact id
  · intro m _
    rw [worker]
    exact some
  · rw [worker, world]
    exact fun left => ⟨(signals.leaves left).1, rfl⟩
  · rw [world]
    exact fun _ => rfl

/-- A visitor gets to wait for the worker, unless somebody else has: nobody tells it to stop meanwhile. -/
theorem take (signals : hall.StopSignals positions) (takes : positions.stations n = .closing .taking)
    (alone : ∀ m, positions.stations m = .closing .taking → m = n)
    (world : later.world = { hall.world with workerHeld := false })
    (log : later.log = hall.log ++
      [⟨.visitor n, hall.world, ⟨.takeWorker, hall.world.workerHeld⟩⟩]) :
    later.StopSignals
      (positions.move n (.closing (if hall.world.workerHeld then .awaiting else .flushing))) := by
  have counts : hires later.log = hires hall.log ∧ stopCallers later.log = stopCallers hall.log := by
    constructor
    · rw [log, hires_append]
      rfl
    · rw [log, stopCallers_append]
      split
      · exact (stopCallers_of_unhired ‹_›).symm
      · exact List.append_nil _
  apply signals.keep counts (by rw [world]) (by rw [world])
  · intro present none
    exact absurd none (signals.taking n takes present)
  · intro m rest first
    obtain ⟨leaving, same, led⟩ := signals.lead m rest first
    by_cases own : m = n
    · subst own
      -- The first to tell the worker to stop finds it there.
      cases takes.symm.trans same
      have held : hall.world.workerHeld = true := led
      rw [Positions.move_self, if_pos held]
      exact ⟨.awaiting, rfl, trivial⟩
    · rw [Positions.move_apart own]
      refine ⟨leaving, same, ?_⟩
      cases leaving with
      | signalling => exact led
      | taking => exact absurd (alone m same) own
      | awaiting => trivial
      | flushing | gone =>
        show later.world.worker = .stopped
        rw [world]
        exact led
  · intro m still
    by_cases own : m = n
    · subst own
      rw [Positions.move_self] at still
      split at still <;> cases still
    · rwa [Positions.move_apart own] at still
  · exact signals.leaves
  · rw [world]
    exact signals.stopped

/-- A visitor starts the worker, while nobody is about to take it. -/
theorem hire {caller : Caller} (signals : hall.StopSignals positions)
    (alone : ∀ m, positions.stations m = .closing .taking → m = n)
    (absent : hall.world.worker = .absent)
    (world : later.world =
      { hall.world with worker := .live hall.world.newWorker, workerHeld := true, told := false })
    (log : later.log = hall.log ++ [⟨caller, hall.world, ⟨.startWorker, true⟩⟩])
    (other : station ≠ .closing .taking) : later.StopSignals (positions.move n station) := by
  have unhired := signals.absent absent
  have none : stopCallers later.log = [] := by rw [log, stopCallers_append, if_pos unhired]
  constructor
  · rw [world]
    nofun
  · intro _
    rw [log, hires_append, unhired]
    rfl
  · rw [world, none]
    exact fun _ => iff_of_false nofun (fun some => some rfl)
  · rw [world]
    exact fun _ _ => rfl
  · intro m rest first
    cases none.symm.trans first
  · intro m takes
    by_cases own : m = n
    · subst own
      rw [Positions.move_self] at takes
      exact absurd takes other
    · rw [Positions.move_apart own] at takes
      exact absurd (alone m takes) own
  · intro left
    exact absurd absent (signals.leaves left).1
  · rw [world]
    nofun

/-- The worker goes on. -/
theorem work {working : Working} {task : Task Unit Unit} (signals : hall.StopSignals positions)
    (live : hall.world.worker = .live task)
    (counts : hires later.log = hires hall.log ∧ stopCallers later.log = stopCallers hall.log)
    (world : later.world.worker ≠ .absent ∧ later.world.told = hall.world.told ∧
      later.world.workerHeld = hall.world.workerHeld)
    (leaves : working = .leaving → hall.world.told = true)
    (stopped : later.world.worker = .stopped → hall.world.told = true) :
    later.StopSignals { positions with worker := working } := by
  obtain ⟨present', told, held⟩ := world
  have present : hall.world.worker ≠ .absent := by
    rw [live]
    nofun
  apply signals.keep counts (iff_of_false present' present) told
  · intro _ none
    exact held.trans (signals.held present none)
  · intro m rest first
    obtain ⟨leaving, same, led⟩ := signals.lead m rest first
    refine ⟨leaving, same, led.keep held fun ended => ?_⟩
    cases live.symm.trans ended
  · exact fun _ takes => takes
  · exact fun left => ⟨present, leaves left⟩
  · exact stopped

/-- A visitor makes a request. -/
theorem asks {chance : Chance} {since : Nat} {exchange : Service.Exchange}
    (signals : hall.StopSignals positions)
    (alone : ∀ m, positions.stations m = .closing .taking → m = n)
    (answers : World.Answers chance since hall.world exchange later.world)
    (passing : Passing options (positions.stations n) exchange station)
    (log : later.log = hall.log ++ [⟨.visitor n, hall.world, exchange⟩]) :
    later.StopSignals (positions.move n station) := by
  have untended : exchange.request.tends = false →
      hires later.log = hires hall.log ∧ stopCallers later.log = stopCallers hall.log := by
    intro other
    rw [log]
    exact counts_untended other
  generalize same : positions.stations n = before at passing
  cases passing with
  | add adds =>
    apply signals.goes (untended adds.untended) (answers.untended adds.untended)
    · intro leaving _ absent
      cases same.symm.trans absent
    · nofun
  | run steps =>
    have goes : ∀ {status : RunStatus}, hires later.log = hires hall.log ∧
        stopCallers later.log = stopCallers hall.log → later.world.worker = hall.world.worker ∧
        later.world.told = hall.world.told ∧ later.world.workerHeld = hall.world.workerHeld →
        later.StopSignals (positions.move n (.running status)) := by
      intro status counts world
      apply signals.goes counts world
      · intro leaving _ absent
        cases same.symm.trans absent
      · nofun
    cases steps with
    | claim | search | serve | release => exact goes (untended rfl) (answers.untended rfl)
    | @hire searches started =>
      generalize arrived : later.world = after at answers
      cases answers with
      | hire absent => exact signals.hire alone absent arrived log nofun
      | keep present =>
        refine goes ?_ (by rw [arrived]; exact ⟨rfl, rfl, rfl⟩)
        rw [log, hires_append, stopCallers_append, if_neg (by rw [signals.present present]; decide)]
        exact ⟨rfl, List.append_nil _⟩
  | close shuts =>
    cases shuts with
    | signal =>
      generalize arrived : later.world = after at answers
      cases answers
      exact signals.signal same arrived log
    | lead =>
      generalize arrived : later.world = after at answers
      cases answers
      exact signals.take same alone arrived log
    | await =>
      apply signals.goes (untended rfl) (answers.untended rfl)
      · intro leaving present _ _
        refine ⟨.flushing, rfl, ?_⟩
        show later.world.worker = .stopped
        generalize later.world = after at answers
        cases answers with
        | outlast gone =>
          cases worker : hall.world.worker with
          | absent => exact absurd worker present
          | live task =>
            rw [worker] at gone
            cases gone
          | stopped => rfl
        | giveUp up => cases up
      · nofun
    | flush =>
      apply signals.goes (untended rfl) (answers.untended rfl)
      · intro leaving _ stands led
        cases same.symm.trans stands
        exact ⟨.gone, rfl, (answers.untended rfl).1.trans led⟩
      · nofun

/-- Whatever happens next, the first to tell the worker to stop gets to wait for it. -/
theorem step (signals : hall.StopSignals positions)
    (alone : ∀ m, (positions.stations m).hurried = true → mover = some m)
    (proceeds : Proceeds options hall positions mover later positions') : later.StopSignals positions' := by
  have taker : ∀ m, positions.stations m = .closing .taking → mover = some m := by
    intro m takes
    apply alone
    rw [takes]
    rfl
  cases proceeds with
  | @enters n station later free first world log =>
    apply signals.goes (by rw [log]; exact ⟨rfl, rfl⟩) (by rw [world]; exact ⟨rfl, rfl, rfl⟩)
    · intro leaving _ stands
      cases free.symm.trans stands
    · rintro rfl
      cases first
  | @leaves n later world log =>
    apply signals.goes (by rw [log]; exact ⟨rfl, rfl⟩) (by rw [world]; exact ⟨rfl, rfl, rfl⟩)
    · intro leaving _ stands led
      rw [stands]
      exact ⟨leaving, rfl, world ▸ led⟩
    · intro takes
      cases station : positions.stations n with
      | adding | running =>
        rw [station] at takes
        cases takes
      | closing leaving =>
        rw [station] at takes
        exact takes
  | rests world log =>
    refine signals.keep (by rw [log]; exact ⟨rfl, rfl⟩) (by rw [world]) (by rw [world])
      (by rw [world]; exact signals.held) (by rw [world]; exact signals.lead) (fun _ => id)
      signals.leaves (by rw [world]; exact signals.stopped)
  | @asks n chance since exchange station later answers passing log =>
    have alone (m : Nat) (takes : positions.stations m = .closing .taking) : m = n :=
      (Option.some.inj (taker m takes)).symm
    exact signals.asks alone answers passing log
  | @works task task' chance since exchange after working later live answers works world log =>
    obtain ⟨-, told, held⟩ := answers.untended works.untended
    apply signals.work live (by rw [log]; exact counts_untended works.untended)
    · rw [world]
      exact ⟨nofun, told, held⟩
    · rintro rfl
      exact works.dismissed answers
    · rw [world]
      nofun
  | begins live world log =>
    apply signals.work live (by rw [log]; exact ⟨rfl, rfl⟩) (by rw [world]; exact ⟨nofun, rfl, rfl⟩)
    · nofun
    · rw [world]
      nofun
  | ends live left world log =>
    have told := (signals.leaves left).2
    exact signals.work live (by rw [log]; exact ⟨rfl, rfl⟩) (by rw [world]; exact ⟨nofun, rfl, rfl⟩)
      (fun _ => told) (fun _ => told)

/-- Whoever was the first to tell the worker to stop has answered only after it had stopped. -/
theorem outlasted {rest : List Nat} {answer : Except QueueError Unit} (signals : hall.StopSignals positions)
    (positioned : hall.Positioned options positions) (first : stopCallers hall.log = n :: rest)
    (found : hall.visits[n]? = some (.closed answer)) : hall.world.worker = .stopped := by
  obtain ⟨leaving, same, led⟩ := signals.lead n rest first
  have stands := positioned.visits n _ found
  rw [same] at stands
  cases stands
  exact led

/-- A worker that nobody has told to stop since it started goes on. -/
theorem unbidden (signals : hall.StopSignals positions) (hired : hires hall.log ≠ 0)
    (none : stopCallers hall.log = []) :
    hall.world.worker.isLive = true ∧ hall.world.told = false := by
  have present : hall.world.worker ≠ .absent := fun absent => hired (signals.absent absent)
  have untold : hall.world.told = false := by
    cases told : hall.world.told with
    | false => rfl
    | true => exact absurd none ((signals.told present).1 told)
  refine ⟨?_, untold⟩
  cases worker : hall.world.worker with
  | absent => exact absurd worker present
  | live task => rfl
  | stopped => cases untold.symm.trans (signals.stopped worker)

end StopSignals

end Hall

end Registrar
