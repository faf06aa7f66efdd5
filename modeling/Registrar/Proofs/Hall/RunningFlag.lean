import Registrar.Proofs.Hall.Interleaving

/-!
Who has claimed a queue. At most one visitor has, and the queue is marked as running as long as one has
(`Hall.ClaimedBy`); only this visitor can start the worker, so nobody finds it started before.
`Hall.ClaimedBy.taken_iff` says that a run finds the queue running exactly when another run is under way or
has succeeded, and `Hall.startable_of_failed` that a run whose scan has failed leaves the queue as if it had
never been run.
-/

namespace Registrar

open Item (Status)
open Node (Leaving)

section

variable {chance : Chance} {since : Nat} {world after : World} {exchange : Service.Exchange}

theorem Shuts.aside {leaving leaving' : Leaving} (shuts : Shuts leaving exchange leaving') :
    exchange.request.aside = true := by
  cases shuts <;> rfl

theorem Service.Exchange.granted_of_aside (aside : exchange.request.aside = true) :
    exchange ≠ ⟨.startWorker, false⟩ := by
  rintro rfl
  cases aside

/-- The worker neither claims the queue nor starts another worker. -/
theorem Works.runs {skip : Bool} {working working' : Working} (works : Works skip working exchange working')
    (running : Bool) : exchange.runs running = running ∧ exchange ≠ ⟨.startWorker, false⟩ := by
  cases works with
  | receive | get => exact ⟨rfl, fun same => by cases congrArg Service.Exchange.request same⟩
  | serve => exact ⟨rfl, fun same => by cases congrArg Service.Exchange.request same⟩

/-- A worker that was there before is there still. -/
theorem World.Answers.keeps_absent (answers : World.Answers chance since world exchange after)
    (unhired : exchange ≠ ⟨.startWorker, true⟩) (present : after.worker ≠ .absent) :
    world.worker ≠ .absent := by
  rcases answers.worker with same | ⟨hired, -⟩
  · exact same ▸ present
  · exact absurd hired unhired

end

namespace Hall

variable {hall later : Hall} {options : Queue.Options} {positions positions' : Positions}
  {claimant mover : Option Nat} {n : Nat} {station : Station}

/-- The visitor who has claimed the queue, if there is one. -/
structure ClaimedBy (hall : Hall) (positions : Positions) (claimant : Option Nat) : Prop where
  running : hall.world.running = claimant.isSome
  holds : ∀ n, (positions.stations n).holds = true ↔ claimant = some n
  worker : hall.world.worker ≠ .absent → ∃ n, claimant = some n ∧ positions.stations n = .running .started
  granted : ∀ line ∈ hall.log, line.exchange ≠ ⟨.startWorker, false⟩

namespace ClaimedBy

theorem append {line : Line} (claimedBy : hall.ClaimedBy positions claimant)
    (log : later.log = hall.log ++ [line]) (granted : line.exchange ≠ ⟨.startWorker, false⟩) :
    ∀ line ∈ later.log, line.exchange ≠ ⟨.startWorker, false⟩ := by
  rw [log]
  intro other there
  rcases List.mem_append.1 there with before | last
  · exact claimedBy.granted other before
  · obtain rfl := List.mem_singleton.1 last
    exact granted

/-- A visitor goes on, and the queue is claimed by whoever has claimed it. -/
theorem keep (claimedBy : hall.ClaimedBy positions claimant)
    (holds : station.holds = (positions.stations n).holds)
    (starts : positions.stations n = .running .started → station = .running .started)
    (running : later.world.running = hall.world.running)
    (worker : later.world.worker ≠ .absent → hall.world.worker ≠ .absent)
    (granted : ∀ line ∈ later.log, line.exchange ≠ ⟨.startWorker, false⟩) :
    later.ClaimedBy (positions.move n station) claimant where
  running := running.trans claimedBy.running
  holds m := by
    by_cases same : m = n
    · subst same
      rw [Positions.move_self, holds]
      exact claimedBy.holds m
    · rw [Positions.move_apart same]
      exact claimedBy.holds m
  worker present := by
    obtain ⟨m, holder, started⟩ := claimedBy.worker (worker present)
    refine ⟨m, holder, ?_⟩
    by_cases same : m = n
    · subst same
      rw [Positions.move_self, starts started]
    · rw [Positions.move_apart same, started]
  granted := granted

/-- A visitor claims the queue, gives it up or starts the worker: nobody else has claimed it then. -/
theorem pass {claimant' : Option Nat} (claimedBy : hall.ClaimedBy positions claimant)
    (others : ∀ m, m ≠ n → claimant ≠ some m ∧ claimant' ≠ some m)
    (holds : station.holds = true ↔ claimant' = some n)
    (running : later.world.running = claimant'.isSome)
    (worker : later.world.worker ≠ .absent → claimant' = some n ∧ station = .running .started)
    (granted : ∀ line ∈ later.log, line.exchange ≠ ⟨.startWorker, false⟩) :
    later.ClaimedBy (positions.move n station) claimant' where
  running := running
  holds m := by
    by_cases same : m = n
    · subst same
      rw [Positions.move_self]
      exact holds
    · rw [Positions.move_apart same, claimedBy.holds m]
      exact iff_of_false (others m same).1 (others m same).2
  worker present := by
    obtain ⟨holder, started⟩ := worker present
    exact ⟨n, holder, by rw [Positions.move_self, started]⟩
  granted := granted

/-- Only the claimant has started the worker. -/
theorem absent (claimedBy : hall.ClaimedBy positions claimant) (holds : (positions.stations n).holds = true)
    (idle : positions.stations n ≠ .running .started) : hall.world.worker = .absent := by
  apply Classical.byContradiction
  intro present
  obtain ⟨m, holder, started⟩ := claimedBy.worker present
  cases ((claimedBy.holds n).1 holds).symm.trans holder
  exact idle started

/-- A visitor who runs the queue makes a request. -/
theorem status {chance : Chance} {since : Nat} {exchange : Service.Exchange} {status status' : RunStatus}
    (claimedBy : hall.ClaimedBy positions claimant) (same : positions.stations n = .running status)
    (answers : World.Answers chance since hall.world exchange later.world)
    (steps : RunSteps options status exchange status')
    (log : later.log = hall.log ++ [⟨.visitor n, hall.world, exchange⟩]) :
    ∃ claimant', later.ClaimedBy (positions.move n (.running status')) claimant' := by
  have keeps : status.holds = true → status ≠ .started → status'.holds = true → exchange.runs true = true →
      exchange ≠ ⟨.startWorker, false⟩ → exchange ≠ ⟨.startWorker, true⟩ →
      later.ClaimedBy (positions.move n (.running status')) claimant := by
    intro holds idle holds' runs granted unhired
    refine claimedBy.keep ?_ (fun started => ?_) ?_ (answers.keeps_absent unhired)
      (claimedBy.append log granted)
    · rw [same]
      exact holds'.trans holds.symm
    · rw [same] at started
      cases started
      exact absurd rfl idle
    · have claimant : claimant = some n := (claimedBy.holds n).1 (same ▸ holds)
      rw [answers.running, claimedBy.running, claimant]
      exact runs
  cases steps with
  | @claim held =>
    have free : (positions.stations n).holds = false := by
      rw [same]
      rfl
    have granted := claimedBy.append log (by nofun)
    have unhired := answers.keeps_absent (by nofun)
    obtain rfl := answers.claimed
    cases held : hall.world.running with
    | true =>
      refine ⟨claimant, claimedBy.keep free.symm (fun started => ?_) ?_ unhired granted⟩
      · cases same.symm.trans started
      · exact answers.running.trans held.symm
    | false =>
      obtain rfl : claimant = none := by
        rw [claimedBy.running] at held
        simpa using held
      refine ⟨some n, claimedBy.pass (fun m apart => ⟨nofun, ?_⟩) (iff_of_true rfl rfl)
        answers.running (fun present => ?_) granted⟩
      · exact fun same => apart (Option.some.inj same).symm
      · obtain ⟨m, absent, -⟩ := claimedBy.worker (unhired present)
        cases absent
  | @search searches answer =>
    refine ⟨claimant, keeps rfl nofun ?_ rfl nofun nofun⟩
    cases answer <;> rfl
  | serve conducts => exact ⟨claimant, keeps rfl nofun rfl rfl nofun nofun⟩
  | release =>
    have holds : (positions.stations n).holds = true := by
      rw [same]
      rfl
    have claimant := (claimedBy.holds n).1 holds
    refine ⟨none, claimedBy.pass (fun m apart => ⟨?_, nofun⟩) (iff_of_false nofun nofun) answers.running
      (fun present => ?_) (claimedBy.append log nofun)⟩
    · intro other
      exact apart (Option.some.inj (other.symm.trans claimant))
    · refine absurd (claimedBy.absent holds ?_) (answers.keeps_absent nofun present)
      rw [same]
      nofun
  | @hire searches started =>
    have holds : (positions.stations n).holds = true := by
      rw [same]
      rfl
    have claimant := (claimedBy.holds n).1 holds
    -- Whoever started the worker before would still hold the queue.
    have absent := claimedBy.absent holds (by rw [same]; nofun)
    obtain ⟨rfl, -⟩ := answers.started absent
    refine ⟨some n, claimedBy.pass (fun m apart => ?_) (iff_of_true rfl rfl) ?_ (fun _ => ⟨rfl, rfl⟩)
      (claimedBy.append log nofun)⟩
    · have other : some n ≠ some m := fun same => apart (Option.some.inj same).symm
      exact ⟨claimant ▸ other, other⟩
    · rw [answers.running, ← claimant]
      exact claimedBy.running

/-- A visitor makes a request that has nothing to do with running the queue. -/
theorem aside {chance : Chance} {since : Nat} {exchange : Service.Exchange}
    (claimedBy : hall.ClaimedBy positions claimant) (holds : station.holds = (positions.stations n).holds)
    (idle : positions.stations n ≠ .running .started)
    (answers : World.Answers chance since hall.world exchange later.world)
    (aside : exchange.request.aside = true)
    (log : later.log = hall.log ++ [⟨.visitor n, hall.world, exchange⟩]) :
    later.ClaimedBy (positions.move n station) claimant := by
  obtain ⟨worker, running⟩ := answers.aside aside
  refine claimedBy.keep holds (fun started => absurd started idle) running (fun present => ?_)
    (claimedBy.append log (Service.Exchange.granted_of_aside aside))
  exact worker ▸ present

/-- The worker goes on, and nobody else does. -/
theorem work {working : Working} {task : Task Unit Unit} (claimedBy : hall.ClaimedBy positions claimant)
    (live : hall.world.worker = .live task) (running : later.world.running = hall.world.running)
    (granted : ∀ line ∈ later.log, line.exchange ≠ ⟨.startWorker, false⟩) :
    later.ClaimedBy { positions with worker := working } claimant where
  running := running.trans claimedBy.running
  holds := claimedBy.holds
  worker _ := claimedBy.worker (by rw [live]; nofun)
  granted := granted

/-- Whatever happens next, the queue is claimed by one visitor at most. -/
theorem step (claimedBy : hall.ClaimedBy positions claimant)
    (proceeds : Proceeds options hall positions mover later positions') :
    ∃ claimant', later.ClaimedBy positions' claimant' := by
  cases proceeds with
  | enters free first world log =>
    refine ⟨claimant, claimedBy.keep ?_ (fun started => ?_) (by rw [world]) (by rw [world]; exact id)
      (by rw [log]; exact claimedBy.granted)⟩
    · rw [free]
      cases first <;> rfl
    · cases free.symm.trans started
  | leaves world log =>
    refine ⟨claimant, claimedBy.keep (Station.holds_leave _) (fun started => ?_) (by rw [world])
      (by rw [world]; exact id) (by rw [log]; exact claimedBy.granted)⟩
    rw [started]
    rfl
  | rests world log =>
    refine ⟨claimant, ?_, claimedBy.holds, ?_, ?_⟩
    · rw [world]
      exact claimedBy.running
    · rw [world]
      exact claimedBy.worker
    · rw [log]
      exact claimedBy.granted
  | @asks n chance since exchange station later answers passing log =>
    generalize same : positions.stations n = before at passing
    cases passing with
    | add adds =>
      exact ⟨claimant, claimedBy.aside (by rw [same]; rfl) (by rw [same]; nofun) answers adds.aside log⟩
    | run steps => exact claimedBy.status same answers steps log
    | close shuts =>
      exact ⟨claimant, claimedBy.aside (by rw [same]; rfl) (by rw [same]; nofun) answers shuts.aside log⟩
  | works live answers works world log =>
    refine ⟨claimant, claimedBy.work live ?_ (claimedBy.append log (works.runs true).2)⟩
    rw [world]
    exact answers.running.trans (works.runs _).1
  | begins live world log =>
    exact ⟨claimant, claimedBy.work live (by rw [world]) (by rw [log]; exact claimedBy.granted)⟩
  | ends live _ world log =>
    exact ⟨claimant, claimedBy.work live (by rw [world]; rfl) (by rw [log]; exact claimedBy.granted)⟩

end ClaimedBy

/-- A run that has given the queue up finds it given up, as long as it has not answered. -/
def Freed (hall : Hall) (positions : Positions) : Prop :=
  ∀ n fault, positions.stations n = .running (.failed fault) → hall.world.running = false

theorem Freed.step (freed : hall.Freed positions)
    (alone : ∀ m, (positions.stations m).hurried = true → mover = some m)
    (proceeds : Proceeds options hall positions mover later positions') : later.Freed positions' := by
  intro n fault failed
  have hurried : (positions'.stations n).hurried = true := by
    rw [failed]
    rfl
  by_cases own : mover = some n
  · subst own
    cases proceeds with
    | leaves =>
      rw [Positions.move_self] at failed
      cases station : positions.stations n with
      | running status =>
        rw [station] at failed
        exact absurd (Station.running.inj failed) (RunStatus.leave_ne_failed fault)
      | adding | closing =>
        rw [station] at failed
        cases failed
    | rests world =>
      rw [world]
      exact freed n fault failed
    | asks answers passing =>
      rw [Positions.move_self] at failed
      subst failed
      generalize positions.stations n = before at passing
      cases passing with
      | run steps =>
        rw [answers.running, steps.release_of_failed]
        rfl
  · have same := proceeds.stays own hurried
    exact absurd (alone n (same ▸ hurried)) own

/-- A run is under way, or one has succeeded. -/
def Taken (hall : Hall) : Prop :=
  ∃ n, (∃ task, hall.visits[n]? = some (.running task) ∧ hall.own n ≠ []) ∨
    hall.visits[n]? = some (.ran (.ok ()))

/-- The queue is as if it had never been run. -/
def Startable (hall : Hall) : Prop := hall.world.running = false ∧ hall.world.worker = .absent

/-- What a run has been told, by which it answers as it does. -/
def Explains (options : Queue.Options) (own : List Service.Exchange) : Except QueueError Unit → Prop
  | .ok () => own.head? = some ⟨.claimRun, false⟩ ∧
      Status.resumeBuckets.length ≤ own.countP (·.searched) ∧
      (options.skipBackground = false → ⟨.startWorker, true⟩ ∈ own)
  | .error error => (error = .alreadyRunning ∧ own.head? = some ⟨.claimRun, true⟩) ∨
      ∃ fault, error = .store fault ∧ own.head? = some ⟨.claimRun, false⟩ ∧
        ⟨.work (.store (.scan Items.keyStart)), .error fault⟩ ∈ own

theorem ClaimedBy.startable_iff (claimedBy : hall.ClaimedBy positions claimant) :
    hall.Startable ↔ hall.world.running = false := by
  refine ⟨And.left, fun free => ⟨free, ?_⟩⟩
  apply Classical.byContradiction
  intro present
  obtain ⟨n, rfl, -⟩ := claimedBy.worker present
  cases free.symm.trans claimedBy.running

theorem ClaimedBy.unbarred (claimedBy : hall.ClaimedBy positions claimant)
    (positioned : hall.Positioned options positions) (n : Nat) : positions.stations n ≠ .running .barred := by
  intro barred
  have told := positioned.told n
  rw [barred] at told
  obtain ⟨line, there, same⟩ := List.mem_map.1 told
  exact claimedBy.granted line (List.mem_filter.1 there).1 same

/-- A run that has answered was told why. -/
theorem ClaimedBy.explains {answer : Except QueueError Unit} (claimedBy : hall.ClaimedBy positions claimant)
    (positioned : hall.Positioned options positions) (found : hall.visits[n]? = some (.ran answer)) :
    Explains options (hall.own n) answer := by
  obtain ⟨status, same, answers⟩ := (positioned.visits n _ found).of_ran
  have told := positioned.told n
  have unbarred := claimedBy.unbarred positioned n
  rw [same] at told unbarred
  cases answers with
  | refused => exact .inl ⟨rfl, told⟩
  | barred => exact absurd rfl unbarred
  | failed => exact .inr ⟨_, rfl, told⟩
  | spared skips enough =>
    obtain ⟨head, rfl⟩ := told
    exact ⟨head, enough, fun wanted => by cases skips.symm.trans wanted⟩
  | started => exact ⟨told.1, told.2.1, fun _ => told.2.2⟩

/-- Whoever has succeeded has claimed the queue for good. -/
theorem ClaimedBy.succeeded (claimedBy : hall.ClaimedBy positions claimant)
    (positioned : hall.Positioned options positions) (found : hall.visits[n]? = some (.ran (.ok ()))) :
    claimant = some n := by
  obtain ⟨status, same, answers⟩ := (positioned.visits n _ found).of_ran
  apply (claimedBy.holds n).1
  rw [same]
  cases answers <;> rfl

/-- At the moment at which a run begins, the queue is running exactly if another run is under way or has
succeeded. -/
theorem ClaimedBy.taken_iff {event : Event} (claimedBy : hall.ClaimedBy positions claimant)
    (positioned : hall.Positioned options positions) (admits : hall.Admits event)
    (begins : event.mover = some n) (fresh : hall.own n = []) :
    hall.Taken ↔ hall.world.running = true := by
  rw [claimedBy.running]
  constructor
  · rintro ⟨m, ⟨task, found, begun⟩ | found⟩
    · obtain ⟨status, same, -⟩ := (positioned.visits m _ found).of_running
      have other : event.mover ≠ some m := by
        rw [begins]
        intro same
        cases same
        exact begun fresh
      -- A run that was refused, or has given up, would have to answer first.
      have idle := positioned.idle admits found begun rfl other
      have holds : (positions.stations m).holds = true := by
        rw [same] at idle ⊢
        cases status <;> first | rfl | cases idle
      rw [(claimedBy.holds m).1 holds]
      rfl
    · rw [claimedBy.succeeded positioned found]
      rfl
  · intro claimed
    obtain ⟨m, rfl⟩ := Option.isSome_iff_exists.1 claimed
    have holds := (claimedBy.holds m).2 rfl
    refine ⟨m, ?_⟩
    cases found : hall.visits[m]? with
    | none =>
      rw [(positioned.absent m (List.getElem?_eq_none_iff.1 found)).1] at holds
      cases holds
    | some visit =>
      have told := positioned.told m
      have stands := positioned.visits m visit found
      have unbarred := claimedBy.unbarred positioned m
      generalize positions.stations m = station at holds told stands unbarred
      cases stands with
      | adding | added | closing | closed => cases holds
      | @running task status plies =>
        refine .inl ⟨task, rfl, RunStatus.Told.nonempty told ?_⟩
        rintro rfl
        cases holds
      | @ran answer status answers =>
        cases answers with
        | refused | failed => cases holds
        | barred => exact absurd rfl unbarred
        | spared | started => exact .inr rfl

/-- The first request of a run: it learns whether the queue is running. -/
theorem Positioned.claims {task : Task Queue.RunStage (Except QueueError Unit)}
    (positioned : hall.Positioned options positions) (chance : Chance)
    (found : hall.visits[n]? = some (.running task)) (fresh : hall.own n = []) :
    (hall.step (.turn n chance)).own n = [⟨.claimRun, hall.world.running⟩] := by
  obtain ⟨status, same, plies⟩ := (positioned.visits n _ found).of_running
  have told := positioned.told n
  have abides := plies.program
  rw [same, fresh] at told
  obtain rfl : status = .fresh := by
    apply Classical.byContradiction
    intro begun
    exact RunStatus.Told.nonempty told begun rfl
  cases asks : task.program with
  | done next =>
    rw [asks] at abides
    rcases next with (_ | resume) | answer
    · exact abides.elim
    · obtain ⟨searches, absent, -⟩ := abides
      cases absent
    · cases abides
  | ask request next =>
    rw [asks] at abides
    obtain ⟨answer, status', steps⟩ := abides.move
    cases steps
    have asked : hall.world.act chance task = .asked ⟨.claimRun, hall.world.running⟩
        { hall.world with running := true }
        { task with since := hall.world.clock, program := next hall.world.running } := by
      unfold World.act
      rw [asks]
      rfl
    simp only [Hall.step, found, asked]
    rw [own_asked rfl rfl, fresh]
    rfl

/-- A run whose scan has failed leaves the queue as if it had never been run. -/
theorem startable_of_failed {task : Task Queue.RunStage (Except QueueError Unit)} {chance : Chance}
    {fault : StoreError} (claimedBy : hall.ClaimedBy positions claimant)
    (positioned : hall.Positioned options positions) (freed : hall.Freed positions)
    (found : hall.visits[n]? = some (.running task))
    (answered : (hall.step (.turn n chance)).visits[n]? = some (.ran (.error (.store fault)))) :
    (hall.step (.turn n chance)).Startable := by
  obtain ⟨bound, -⟩ := List.getElem?_eq_some_iff.1 found
  obtain ⟨status, same, plies⟩ := (positioned.visits n _ found).of_running
  have abides := plies.program
  simp only [Hall.step, found] at answered ⊢
  have acts := hall.world.acts chance task
  generalize hall.world.act chance task = act at acts answered ⊢
  cases acts with
  | finished finishes =>
    cases (List.getElem?_set_self bound).symm.trans answered
    rw [finishes] at abides
    generalize told : Except.error (QueueError.store fault) = answer at abides
    cases abides with
    | failed =>
      cases told
      exact claimedBy.startable_iff.2 (freed n fault same)
    | refused | barred | spared | started => cases told
  | began | asked => cases (List.getElem?_set_self bound).symm.trans answered
  | waits => cases found.symm.trans answered

/-- What somebody has asked and been told is not forgotten. -/
theorem own_prefix (hall : Hall) (events : List Event) (n : Nat) :
    hall.own n <+: (events.foldl Hall.step hall).own n := by
  induction events generalizing hall with
  | nil => exact List.prefix_rfl
  | cons event events ih =>
    refine List.IsPrefix.trans ?_ (ih (hall.step event))
    rcases hall.step_log event with ⟨same, -⟩ | ⟨caller, exchange, log, -⟩
    · simp only [own_same same, List.prefix_rfl]
    · by_cases own : caller = .visitor n
      · rw [own_asked log own]
        exact List.prefix_append ..
      · simp only [own_apart log own, List.prefix_rfl]

end Hall

end Registrar
