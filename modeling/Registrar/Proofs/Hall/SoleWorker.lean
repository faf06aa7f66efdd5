import Registrar.Proofs.Hall.StopSignals

/-!
One worker. Any number of calls run a queue, close it and add requests, and give way to each other wherever
they wait for an answer; nobody is cancelled, and scans may fail. `Hall.Sole` gathers what holds then at any
time, and `Hall.sole_worker` adds what each run finds when it begins and what it leaves when its scan has
failed.
-/

namespace Registrar.Hall

variable {hall : Hall} {options : Queue.Options} {positions : Positions} {claimant : Option Nat} {n : Nat}

/-- The positions of everybody in a hall, and what they tell of the queue. -/
structure Governed (options : Queue.Options) (hall : Hall) (positions : Positions) : Prop where
  positioned : hall.Positioned options positions
  claimedBy : ∃ claimant, hall.ClaimedBy positions claimant
  freed : hall.Freed positions
  signals : hall.StopSignals positions

theorem governed_start (clock : Nat) (backend : Backend) (secrets : Nat → Secret) (drawn : Nat)
    (options : Queue.Options) :
    ∃ positions, (start (.build clock backend secrets drawn options)).Governed options positions := by
  refine ⟨_, positioned_start clock backend secrets drawn options, ⟨none, ?_⟩, fun _ _ _ => rfl, ?_⟩
  · constructor
    · rfl
    · exact fun n => iff_of_false nofun nofun
    · exact fun present => absurd rfl present
    · exact fun line there => absurd there List.not_mem_nil
  · constructor
    · exact fun _ => rfl
    · exact fun present => absurd rfl present
    · exact fun present => absurd rfl present
    · exact fun present => absurd rfl present
    · exact nofun
    · exact nofun
    · exact nofun
    · exact nofun

/-- Where calls give way only where they wait, whatever happens next takes the positions along. -/
theorem Governed.step {event : Event} (governed : hall.Governed options positions)
    (admits : hall.Admits event) : ∃ positions', (hall.step event).Governed options positions' := by
  obtain ⟨positions', positioned, proceeds⟩ := governed.positioned.step event
  obtain ⟨claimant, claimedBy⟩ := governed.claimedBy
  have alone : ∀ m, (positions.stations m).hurried = true → event.mover = some m :=
    fun m => governed.positioned.alone admits
  exact ⟨positions', positioned, claimedBy.step proceeds, governed.freed.step alone proceeds,
    governed.signals.step alone proceeds⟩

theorem governed_run {events : List Event} (undivided : hall.Undivided events)
    (governed : ∃ positions, hall.Governed options positions) :
    ∃ positions, (events.foldl Hall.step hall).Governed options positions := by
  induction events generalizing hall with
  | nil => exact governed
  | cons event events ih =>
    obtain ⟨positions, governed⟩ := governed
    exact ih undivided.2 (governed.step undivided.1)

theorem Undivided.split {earlier later : List Event} {event : Event}
    (undivided : hall.Undivided (earlier ++ event :: later)) :
    hall.Undivided earlier ∧ (earlier.foldl Hall.step hall).Admits event := by
  induction earlier generalizing hall with
  | nil => exact ⟨trivial, undivided.1⟩
  | cons first earlier ih =>
    obtain ⟨before, admits⟩ := ih undivided.2
    exact ⟨⟨undivided.1, before⟩, admits⟩

/-- What holds of a hall at any time. -/
structure Sole (options : Queue.Options) (hall : Hall) : Prop where
  started : hires hall.log ≤ 1
  /-- Nobody who is about to start the worker finds that it was started before. -/
  granted : ∀ line ∈ hall.log, line.exchange ≠ ⟨.startWorker, false⟩
  succeeded : ∀ m n : Nat, hall.visits[m]? = some (.ran (.ok ())) →
    hall.visits[n]? = some (.ran (.ok ())) → m = n
  explained : ∀ (n : Nat) answer, hall.visits[n]? = some (.ran answer) → Explains options (hall.own n) answer
  /-- Whoever is the first to close the queue after the worker was started outlasts it. -/
  outlasted : ∀ n rest answer, stopCallers hall.log = n :: rest →
    hall.visits[n]? = some (.closed answer) → hall.world.worker = .stopped
  /-- As long as nobody has closed the queue since the worker was started, it goes on. -/
  unbidden : hires hall.log ≠ 0 → stopCallers hall.log = [] →
    hall.world.worker.isLive = true ∧ hall.world.told = false

theorem Governed.sole (governed : hall.Governed options positions) : hall.Sole options where
  started := by
    by_cases absent : hall.world.worker = .absent
    · exact (governed.signals.absent absent).trans_le (Nat.zero_le _)
    · exact (governed.signals.present absent).le
  granted := governed.claimedBy.elim fun _ claimedBy => claimedBy.granted
  succeeded m n foundM foundN := by
    obtain ⟨claimant, claimedBy⟩ := governed.claimedBy
    have same := (claimedBy.succeeded governed.positioned foundM).symm.trans
      (claimedBy.succeeded governed.positioned foundN)
    exact Option.some.inj same
  explained n answer found := by
    obtain ⟨claimant, claimedBy⟩ := governed.claimedBy
    exact claimedBy.explains governed.positioned found
  outlasted n rest answer first found := governed.signals.outlasted governed.positioned first found
  unbidden hired none := governed.signals.unbidden hired none

theorem explains_refused {own : List Service.Exchange} {answer : Except QueueError Unit} {held : Bool}
    (explains : Explains options own answer) (head : own.head? = some ⟨.claimRun, held⟩) :
    answer = .error .alreadyRunning ↔ held = true := by
  rcases answer with error | ⟨⟩
  · rcases explains with ⟨rfl, told⟩ | ⟨fault, rfl, told, -⟩
    · cases head.symm.trans told
      exact iff_of_true rfl rfl
    · cases head.symm.trans told
      exact iff_of_false nofun nofun
  · cases head.symm.trans explains.1
    exact iff_of_false nofun nofun

/-- Whatever calls run a queue, close it and add requests, however they take turns where they wait for an
answer, and however often a scan fails: `Sole` holds at any time. A run is refused exactly if another run is
under way or has succeeded when it begins; otherwise it finds the queue as if it had never been run. A run
whose scan has failed leaves the queue like this. -/
theorem sole_worker (clock : Nat) (backend : Backend) (secrets : Nat → Secret) (drawn : Nat)
    (options : Queue.Options) (events : List Event)
    (undivided : (start (.build clock backend secrets drawn options)).Undivided events) :
    let hall (events : List Event) : Hall := run (.build clock backend secrets drawn options) events
    (hall events).Sole options ∧
    ∀ earlier n chance later task, events = earlier ++ .turn n chance :: later →
      (hall earlier).visits[n]? = some (.running task) →
      ((hall earlier).own n = [] →
        ((hall earlier).Startable ↔ ¬ (hall earlier).Taken) ∧
        ∀ answer, (hall events).visits[n]? = some (.ran answer) →
          (answer = .error .alreadyRunning ↔ (hall earlier).Taken)) ∧
      ∀ fault, (hall (earlier ++ [.turn n chance])).visits[n]? = some (.ran (.error (.store fault))) →
        (hall (earlier ++ [.turn n chance])).Startable := by
  intro hall
  have begun := governed_start clock backend secrets drawn options
  obtain ⟨positions, governed⟩ : ∃ positions, (hall events).Governed options positions :=
    governed_run undivided begun
  refine ⟨governed.sole, ?_⟩
  rintro earlier n chance later task rfl found
  obtain ⟨before, admits⟩ := undivided.split
  obtain ⟨positions', governed'⟩ : ∃ positions, (hall earlier).Governed options positions :=
    governed_run before begun
  obtain ⟨claimant, claimedBy⟩ := governed'.claimedBy
  have next : hall (earlier ++ [.turn n chance]) = (hall earlier).step (.turn n chance) :=
    run_concat _ earlier _
  constructor
  · intro fresh
    have taken := claimedBy.taken_iff governed'.positioned admits rfl fresh
    refine ⟨?_, fun answer answered => ?_⟩
    · rw [claimedBy.startable_iff, taken, Bool.not_eq_true]
    · have goesOn : hall (earlier ++ .turn n chance :: later) =
          later.foldl Hall.step ((hall earlier).step (.turn n chance)) := by
        simp only [hall, run, List.foldl_append, List.foldl_cons]
      -- What the run was told first is what it answers by.
      obtain ⟨more, own⟩ := own_prefix ((hall earlier).step (.turn n chance)) later n
      rw [← goesOn, governed'.positioned.claims chance found fresh] at own
      rw [taken]
      refine explains_refused (governed.sole.explained n answer answered) ?_
      rw [← own]
      rfl
  · intro fault failed
    rw [next] at failed ⊢
    exact startable_of_failed claimedBy governed'.positioned governed'.freed found failed

/-- What a run has answered. -/
def ran (hall : Hall) (n : Nat) : Option (Except QueueError Unit) :=
  match hall.visits[n]? with
  | some (.ran answer) => some answer
  | _ => none

theorem found_of_ran {answer : Except QueueError Unit} (h : hall.ran n = some answer) :
    hall.visits[n]? = some (.ran answer) := by
  unfold ran at h
  split at h
  · cases h
    assumption
  · cases h

/-- A run is under way at a visitor. -/
def runs (hall : Hall) (n : Nat) : Bool :=
  match hall.visits[n]? with
  | some (.running _) => true
  | _ => false

theorem found_of_runs (h : hall.runs n = true) : ∃ task, hall.visits[n]? = some (.running task) := by
  unfold runs at h
  split at h
  · exact ⟨_, ‹_›⟩
  · cases h

/-- The scan of a run fails. Somebody closes the queue before the next run starts the worker; a third run
comes while this one scans, and is refused. Then the queue is closed again. -/
theorem sole_worker_retried :
    let plain : Chance := ⟨⟨fun _ => .error (.connection ""), none, 5⟩, .ok (.fill 1)⟩
    let broken : Chance := { plain with failure := some (.io "") }
    let turns (n visitor : Nat) : List Event := List.replicate n (.turn visitor plain)
    let works (n : Nat) : List Event := List.replicate n (.work plain)
    let failing : List Event := [.run] ++ turns 2 0 ++ [.turn 0 broken] ++ turns 1 0
    let scanning : List Event := [.close] ++ turns 4 1 ++ [.run] ++ turns 4 2 ++ [.run]
    let leaving : List Event := [.close] ++ turns 2 4 ++ works 2 ++ turns 3 4
    let build := World.build 0 (Backend.fresh .sample ⟨7, 1⟩ 0) (fun _ => .fill 1) 0 ⟨1, 100, false, false⟩
    let failed := run build (failing ++ turns 1 0)
    let refusing := run build (failing ++ turns 1 0 ++ scanning)
    let hall := run build (failing ++ turns 1 0 ++ scanning ++ turns 2 3 ++ turns 10 2 ++ leaving)
    failed.ran 0 = some (.error (.store (.io ""))) ∧ failed.Startable ∧
    hall.ran 2 = some (.ok ()) ∧ hall.ran 3 = some (.error .alreadyRunning) ∧ refusing.Taken ∧
    hall.Sole ⟨1, 100, false, false⟩ ∧ hall.world.worker = .stopped := by
  intro plain broken turns works failing scanning leaving build failed refusing hall
  have whole := sole_worker 0 (Backend.fresh .sample ⟨7, 1⟩ 0) (fun _ => .fill 1) 0
    ⟨1, 100, false, false⟩ (failing ++ turns 1 0 ++ scanning ++ turns 2 3 ++ turns 10 2 ++ leaving)
    (by decide +kernel)
  extract_lets hallOf at whole
  have sole : hall.Sole ⟨1, 100, false, false⟩ := whole.1
  have turn := whole.2
  have answered : failed.ran 0 = some (.error (.store (.io ""))) := by decide +kernel
  have succeeded : hall.ran 2 = some (.ok ()) := by decide +kernel
  have turned : hall.ran 3 = some (.error .alreadyRunning) := by decide +kernel
  have first : stopCallers hall.log = [4] := by decide +kernel
  have closed : Node.closed hall 4 = some (.ok ()) := by decide +kernel
  have begun : (hallOf failing).runs 0 = true := by decide +kernel
  have come : refusing.runs 3 = true := by decide +kernel
  have fresh : refusing.own 3 = [] := List.isEmpty_iff.1 (by decide +kernel)
  obtain ⟨task, found⟩ := found_of_runs begun
  obtain ⟨other, found'⟩ := found_of_runs come
  have parts : failing ++ turns 1 0 ++ scanning ++ turns 2 3 ++ turns 10 2 ++ leaving =
      failing ++ .turn 0 plain :: (scanning ++ turns 2 3 ++ turns 10 2 ++ leaving) := by
    simp only [turns, List.replicate, List.append_assoc, List.cons_append, List.nil_append]
  have parts' : failing ++ turns 1 0 ++ scanning ++ turns 2 3 ++ turns 10 2 ++ leaving =
      failing ++ turns 1 0 ++ scanning ++ .turn 3 plain :: (turns 1 3 ++ turns 10 2 ++ leaving) := by
    simp only [turns, List.replicate, List.append_assoc, List.cons_append, List.nil_append]
  obtain ⟨-, freed⟩ := turn failing 0 plain _ task parts found
  obtain ⟨refused, -⟩ := turn (failing ++ turns 1 0 ++ scanning) 3 plain _ other parts' found'
  refine ⟨answered, freed _ (found_of_ran answered), succeeded, turned, ?_, sole, ?_⟩
  · exact ((refused fresh).2 _ (found_of_ran turned)).1 rfl
  · have found := Node.found_of_closed closed
    have outlasted := sole.outlasted 4 [] (.ok ()) first
    exact outlasted found

end Registrar.Hall
