import Registrar.Node
import Registrar.Proofs.Hall.ItemWorkers
import Registrar.Proofs.Hall.PerformedCalls

/-!
What comes after a node was shut down. A shutdown tells the worker to stop, and waits for it only as long as
the settings allow, so the worker may outlast it. `Hall.Parted` says what such a worker still does: it goes
on with the item that it has in hand, takes no further index from the lane, and is dismissed as soon as it
asks for one. `Node.Standing` follows the one who shuts the node down; `Node.last_in_hand` puts the two
together.
-/

namespace Registrar

namespace World

variable {chance : Chance} {since : Nat} {world after : World} {exchange : Service.Exchange}

/-- A worker that is there stays there, or stops. -/
theorem Answers.present (answers : Answers chance since world exchange after)
    (present : world.worker ≠ .absent) : after.worker = world.worker := by
  rcases answers.worker with same | ⟨-, absent, -⟩
  · exact same
  · exact absurd absent present

/-- Only a worker that is just starting has not heard the signal. -/
theorem Answers.told (answers : Answers chance since world exchange after)
    (present : world.worker ≠ .absent) (told : world.told = true) : after.told = true := by
  cases answers with
  | hire absent => exact absurd absent present
  | signal => rfl
  | _ => exact told

theorem Answers.taken_worker {held : Bool} (answers : Answers chance since world ⟨.takeWorker, held⟩ after) :
    held = world.workerHeld := by
  cases answers
  rfl

/-- Whoever does not get to wait for the worker has somebody else wait for it. -/
theorem Answers.held (answers : Answers chance since world exchange after)
    (held : world.workerHeld = true) :
    after.workerHeld = true ∨ exchange = ⟨.takeWorker, true⟩ := by
  cases answers with
  | hire => exact .inl rfl
  | lead =>
    rw [held]
    exact .inr rfl
  | _ => exact .inl held

/-- A worker that was told to stop gets no index from the lane. -/
theorem untaken_of_told {σ α : Type} {task task' : Task σ α} (told : world.told = true)
    (asked : world.act chance task = .asked exchange after task') : Hall.taken? exchange = none := by
  unfold act at asked
  split at asked
  · cases asked
  · cases asked
  · rename_i request next _
    cases request with
    | receive =>
      simp only [answer?, poll, told, if_true] at asked
      cases asked
      rfl
    | _ =>
      split at asked
      · cases asked
      · cases asked
        rfl

end World

/-- What the worker has in hand at a place of its work. -/
def Working.Holds (hand : Option Int64) : Working → Prop
  | .resting | .leaving => hand = none
  | .seeking index | .serving index _ => hand = some index
  | .missing => True

/-- Every answer leaves the worker with what it has in hand, or hands it an index. -/
theorem Works.holds {skip : Bool} {working working' : Working} {exchange : Service.Exchange}
    {hand : Option Int64} (works : Works skip working exchange working') (holds : working.Holds hand) :
    working'.Holds ((Hall.taken? exchange).or hand) ∧
      (exchange.request = .receive ∨ ∃ index, hand = some index) := by
  cases works with
  | @receive answer =>
    refine ⟨?_, .inl rfl⟩
    cases answer with
    | none => exact holds
    | some index => rfl
  | @get index answer =>
    refine ⟨?_, .inr ⟨index, holds⟩⟩
    rcases answer with error | _ | record
    · trivial
    · trivial
    · simp only [Working.fetched]
      split
      · exact holds
      · trivial
  | serve => exact ⟨holds, .inr ⟨_, holds⟩⟩

namespace Hall

/-- The visitor whose turn it is. -/
def Event.mover : Event → Option Nat
  | .turn n _ => some n
  | .add _ _ | .run | .close | .work _ | .wait _ => none

variable {hall later called shut : Hall} {skip : Bool} {n : Nat} {mover : Option Nat}

/-- What a step comes to: nobody makes a request, the visitor makes one whose turn it is, or the worker ends,
begins with its next round or makes a request. -/
inductive Moves (hall : Hall) : Option Nat → Hall → Prop where
  | still {mover clock visits} : hall.world.clock ≤ clock →
      Moves hall mover { hall with world := { hall.world with clock }, visits }
  | asks {chance since exchange after n visits} : World.Answers chance since hall.world exchange after →
      Moves hall (some n)
        { hall with world := after, visits, log := hall.log ++ [⟨.visitor n, hall.world, exchange⟩] }
  | ends {task} : hall.world.worker = .live task → Moves hall none (hall.labour (.finished ()))
  | begins {task state} : hall.world.worker = .live task → task.program = .done (.again state) →
      Moves hall none
        (hall.labour (.began { task with since := hall.world.clock, program := task.round state }))
  | works {chance task request next answer after} : hall.world.worker = .live task →
      task.program = .ask request next →
      World.Answers chance task.since hall.world ⟨request, answer⟩ after →
      (hall.world.told = true → taken? ⟨request, answer⟩ = none) →
      Moves hall none
        (hall.labour (.asked ⟨request, answer⟩ after
          { task with since := hall.world.clock, program := next answer }))

theorem Moves.enter {visit : Visit} : hall.Moves none (hall.enter visit) := .still (Nat.le_refl _)

theorem Moves.advance {σ α : Type} {chance : Chance} {task : Task σ α} {goOn : Task σ α → Visit}
    {leave : α → Visit} :
    hall.Moves (some n) (hall.advance n (hall.world.act chance task) goOn leave) := by
  have acts := hall.world.acts chance task
  generalize hall.world.act chance task = act at acts ⊢
  cases acts with
  | finished | began | waits => exact .still (Nat.le_refl _)
  | asked _ answers => exact .asks answers

theorem Moves.work {chance : Chance} {task : Task Unit Unit} (live : hall.world.worker = .live task) :
    hall.Moves none (hall.labour (hall.world.act chance task)) := by
  have acts := hall.world.acts chance task
  cases acted : hall.world.act chance task with
  | finished =>
    exact .ends live
  | began next =>
    rw [acted] at acts
    cases acts with
    | began again => exact .begins live again
  | asked exchange after next =>
    have untaken := fun told => World.untaken_of_told told acted
    rw [acted] at acts
    cases acts with
    | asked asks answers => exact .works live asks answers untaken
  | waits => exact .still (Nat.le_refl _)

theorem moves (hall : Hall) (event : Event) : hall.Moves event.mover (hall.step event) := by
  cases event with
  | add | run | close => exact .enter
  | turn n chance =>
    simp only [step]
    split
    · exact .advance
    · exact .advance
    · exact .advance
    all_goals exact .still (Nat.le_refl _)
  | work chance =>
    simp only [step]
    split
    · exact .work ‹_›
    all_goals exact .still (Nat.le_refl _)
  | wait duration => exact .still (Nat.le_add_right _ _)

namespace Moves

theorem present (moves : hall.Moves mover later) (present : hall.world.worker ≠ .absent) :
    later.world.worker ≠ .absent := by
  cases moves with
  | still => exact present
  | asks answers => exact answers.present present ▸ present
  | ends | begins | works => nofun

/-- A worker that has stopped does not come back. -/
theorem isLive (moves : hall.Moves mover later) (present : hall.world.worker ≠ .absent)
    (live : later.world.worker.isLive = true) : hall.world.worker.isLive = true := by
  cases moves with
  | still => exact live
  | asks answers => exact answers.present present ▸ live
  | ends same | begins same | works same => exact same ▸ rfl

theorem told (moves : hall.Moves mover later) (present : hall.world.worker ≠ .absent)
    (told : hall.world.told = true) : later.world.told = true := by
  cases moves with
  | still | ends | begins => exact told
  | asks answers | works _ _ answers => exact answers.told present told

theorem clock (moves : hall.Moves mover later) : hall.world.clock ≤ later.world.clock := by
  cases moves with
  | still le => exact le
  | ends | begins => exact Nat.le_refl _
  | asks answers | works _ _ answers => exact answers.clock.ge

theorem log (moves : hall.Moves mover later) : ∀ line ∈ hall.log, line ∈ later.log := by
  intro line there
  cases moves with
  | still | ends | begins => exact there
  | asks | works => exact List.mem_append_left _ there

/-- Nobody gets to wait for the worker without a request on record. -/
theorem held (moves : hall.Moves mover later) (other : mover ≠ some n)
    (held : hall.world.workerHeld = true) : later.world.workerHeld = true ∨
      ∃ line ∈ later.log, line.caller ≠ .visitor n ∧ line.exchange = ⟨.takeWorker, true⟩ := by
  cases moves with
  | still | ends | begins => exact .inl held
  | @asks chance since exchange after m visits answers =>
    apply (answers.held held).imp_right
    intro taken
    exact ⟨_, List.mem_append_right _ List.mem_cons_self, fun same => other (by cases same; rfl), taken⟩
  | works _ _ answers =>
    apply (answers.held held).imp_right
    intro taken
    exact ⟨_, List.mem_append_right _ List.mem_cons_self, nofun, taken⟩

end Moves

/-- The worker's task is where what it has in hand says, whatever the store does. -/
structure Staffed (hall : Hall) (skip : Bool) : Prop where
  skips : hall.world.options.skipProcessing = skip
  absent : hall.world.worker = .absent → hall.hand = none
  live : ∀ task, hall.world.worker = .live task →
    ∃ working, task.Labours skip working ∧ working.Holds hall.hand

theorem staffed_start (clock : Nat) (backend : Backend) (secrets : Nat → Secret) (drawn : Nat)
    (options : Queue.Options) :
    (start (.build clock backend secrets drawn options)).Staffed options.skipProcessing where
  skips := rfl
  absent _ := rfl
  live _ absent := by cases absent

/-- The request of a live worker is one of its work, and it is at the item that it has in hand. -/
theorem Staffed.asked (staffed : hall.Staffed skip) {chance : Chance} {task : Task Unit Unit}
    {request : Service.Request} {next : request.Answer → Program Service (Registrar.Next Unit Unit)}
    {answer : request.Answer} {after : World} (live : hall.world.worker = .live task)
    (asks : task.program = .ask request next)
    (answers : World.Answers chance task.since hall.world ⟨request, answer⟩ after) :
    (∃ working, (Task.mk hall.world.clock (next answer) task.round).Labours skip working ∧
      working.Holds ((taken? ⟨request, answer⟩).or hall.hand)) ∧
    (request = .receive ∨ ∃ index, hall.hand = some index) := by
  obtain ⟨working, labours, holds⟩ := staffed.live task live
  have abides := labours.program
  rw [asks] at abides
  obtain ⟨working', works, rest⟩ := abides hall.world.store answer answers.possible
  obtain ⟨holds', asked⟩ := works.holds holds
  exact ⟨⟨working', ⟨rest, labours.round⟩, holds'⟩, asked⟩

theorem Staffed.moves (staffed : hall.Staffed skip) (moves : hall.Moves mover later) :
    later.Staffed skip := by
  cases moves with
  | still => exact ⟨staffed.skips, staffed.absent, staffed.live⟩
  | @asks chance since exchange after m visits answers =>
    have skips : after.options.skipProcessing = skip := answers.options ▸ staffed.skips
    rcases answers.worker with same | ⟨-, absent, started⟩
    · exact ⟨skips, fun absent => staffed.absent (same ▸ absent), fun task live =>
        staffed.live task (same ▸ live)⟩
    · refine ⟨skips, fun absent => (by cases started.symm.trans absent), fun task live => ?_⟩
      cases started.symm.trans live
      refine ⟨.resting, ?_, staffed.absent absent⟩
      exact staffed.skips ▸ ⟨Queue.abides_working _ (), Queue.abides_working _⟩
  | ends => exact ⟨staffed.skips, fun _ => rfl, fun _ absent => by cases absent⟩
  | begins live =>
    obtain ⟨working, labours, -⟩ := staffed.live _ live
    refine ⟨staffed.skips, fun _ => rfl, ?_⟩
    intro task same
    cases same
    exact ⟨.resting, ⟨labours.round _, labours.round⟩, rfl⟩
  | works live asks answers =>
    obtain ⟨working, -⟩ := staffed.asked live asks answers
    refine ⟨answers.options ▸ staffed.skips, fun absent => (by cases absent), ?_⟩
    intro task same
    cases same
    exact working

/-- A request that the worker may still make after a moment at which it was told to stop: it outlasts this
moment, and asks on for the item it then had in hand or is dismissed. -/
def Line.Parting (shut : Hall) (line : Line) : Prop :=
  ∀ hand, line.caller = .worker hand → shut.world.worker.isLive = true ∧
    (line.exchange = ⟨.receive, none⟩ ∨ ∃ index, hand = some index ∧ shut.hand = some index)

/-- How a hall may go on from a moment at which its worker was told to stop. -/
structure Parted (shut hall : Hall) : Prop where
  told : hall.world.told = true
  present : hall.world.worker ≠ .absent
  outlasts : hall.world.worker.isLive = true → shut.world.worker.isLive = true
  received : hall.received = shut.received
  hand : hall.hand = shut.hand ∨ hall.hand = none
  log : ∃ lines, hall.log = shut.log ++ lines ∧ ∀ line ∈ lines, line.Parting shut

theorem Parted.now (told : shut.world.told = true) (present : shut.world.worker ≠ .absent) :
    shut.Parted shut :=
  ⟨told, present, id, rfl, .inl rfl, [], (List.append_nil _).symm, fun _ absent => by cases absent⟩

theorem Parted.append (parted : shut.Parted hall) {line : Line} (parting : line.Parting shut) :
    ∃ lines, hall.log ++ [line] = shut.log ++ lines ∧ ∀ line ∈ lines, line.Parting shut := by
  obtain ⟨lines, same, partings⟩ := parted.log
  refine ⟨lines ++ [line], ?_, fun other there => ?_⟩
  · rw [same, List.append_assoc]
  · rcases List.mem_append.1 there with before | last
    · exact partings other before
    · obtain rfl := List.mem_singleton.1 last
      exact parting

theorem Parted.moves (parted : shut.Parted hall) (staffed : hall.Staffed skip)
    (moves : hall.Moves mover later) : shut.Parted later := by
  have told := moves.told parted.present parted.told
  have present := moves.present parted.present
  have outlasts := fun live => parted.outlasts (moves.isLive parted.present live)
  cases moves with
  | still => exact ⟨told, present, outlasts, parted.received, parted.hand, parted.log⟩
  | asks answers =>
    refine ⟨told, present, outlasts, parted.received, parted.hand, parted.append ?_⟩
    exact fun _ absent => by cases absent
  | ends | begins => exact ⟨told, present, outlasts, parted.received, .inr rfl, parted.log⟩
  | @works chance task request next answer after live asks answers untaken =>
    -- The signal comes before the lane, so the worker is handed nothing new.
    have none := untaken parted.told
    obtain ⟨-, asked⟩ := staffed.asked live asks answers
    refine ⟨told, present, outlasts, ?_, ?_, parted.append ?_⟩
    · rw [labour, none]
      exact (List.append_nil _).trans parted.received
    · rw [labour, none]
      exact parted.hand
    · intro hand same
      cases same
      apply And.intro (outlasts rfl)
      rcases asked with rfl | ⟨index, holds⟩
      · obtain rfl : answer = Option.none := none
        exact .inl rfl
      · have kept := parted.hand.resolve_right fun empty => by cases empty.symm.trans holds
        exact .inr ⟨index, holds, kept.symm.trans holds⟩

theorem visits_labour (act : World.Act Unit Unit) : (hall.labour act).visits = hall.visits := by
  cases act <;> rfl

theorem visit_enter {visit other : Visit} (found : hall.visits[n]? = some visit) :
    (hall.enter other).visits[n]? = some visit := by
  obtain ⟨bound, -⟩ := List.getElem?_eq_some_iff.1 found
  exact (List.getElem?_append_left bound).trans found

theorem visit_advance {σ α : Type} {act : World.Act σ α} {goOn : Task σ α → Visit} {leave : α → Visit}
    {m : Nat} {visit : Visit} (apart : m ≠ n) (found : hall.visits[n]? = some visit) :
    (hall.advance m act goOn leave).visits[n]? = some visit := by
  cases act with
  | finished | began | asked => exact (List.getElem?_set_ne apart).trans found
  | waits => exact found

/-- A visit stays as it is while others have their turns. -/
theorem visit_step {event : Event} {visit : Visit} (other : event.mover ≠ some n)
    (found : hall.visits[n]? = some visit) : (hall.step event).visits[n]? = some visit := by
  cases event with
  | add | run | close => exact visit_enter found
  | turn m chance =>
    have apart : m ≠ n := fun same => other (congrArg some same)
    simp only [step]
    split
    · exact visit_advance apart found
    · exact visit_advance apart found
    · exact visit_advance apart found
    all_goals exact found
  | work chance =>
    simp only [step]
    split
    · rw [visits_labour]
      exact found
    all_goals exact found
  | wait duration => exact found

end Hall

/-- The error of the queue that ended a call of a node. -/
def NodeError.cause : NodeError → QueueError
  | .starting error | .closing error | .flushing error => error

namespace Node

/-- How far one has come who shuts a node down. -/
inductive Leaving where
  | signalling
  | taking
  | awaiting
  | flushing
  | gone

/-- The requests of one who shuts a node down. -/
inductive Leaves (limit : Nat) : Leaving → Service.Exchange → Leaving → Prop where
  | signal : Leaves limit .signalling ⟨.signalStop, ()⟩ .taking
  | lead {held : Bool} :
      Leaves limit .taking ⟨.takeWorker, held⟩ (if held then .awaiting else .flushing)
  | await {stopped : Bool} : Leaves limit .awaiting ⟨.awaitWorker (some limit), stopped⟩ .flushing
  | flush {answer : Except StoreError Unit} :
      Leaves limit .flushing ⟨.work (.store .flush), answer⟩ .gone

/-- Shutting a node down; of an error, the cause is kept. -/
def leave (limit : Nat) : Attempt Service QueueError Unit := (stop limit).adapt NodeError.cause

theorem abides_leave (limit : Nat) :
    (leave limit).run.Abides (Leaves limit) (fun _ leaving => leaving = .gone) .signalling := by
  intro _ _ _
  refine ⟨_, .signal, ?_⟩
  intro _ (held : Bool) _
  refine ⟨_, .lead, ?_⟩
  cases held with
  | false =>
    intro _ answer _
    exact ⟨_, .flush, by cases answer <;> rfl⟩
  | true =>
    intro _ stopped _
    refine ⟨_, .await, ?_⟩
    intro _ answer _
    exact ⟨_, .flush, by cases answer <;> rfl⟩

/-- What may happen at a node: something in the hall of its queue, or somebody comes to shut it down. -/
inductive Event where
  | hall (event : Hall.Event)
  | shutdown

/-- Milliseconds that a shutdown waits for the worker. -/
def patience (settings : Settings) : Nat := 1000 * settings.shutdownTimeout.toNat

def step (settings : Settings) (hall : Hall) : Event → Hall
  | .hall event => hall.step event
  | .shutdown =>
    hall.enter (.closing (.once hall.world.clock (leave (patience settings)).run))

/-- The hall of a node after some events. -/
def run (settings : Settings) (world : World) (events : List Event) : Hall :=
  events.foldl (step settings) (.start world)

variable {settings : Settings} {limit : Nat} {called hall later shut : Hall} {skip : Bool} {n : Nat}

/-- Somebody other than the visitor waits for the worker, or has done so. -/
def Attended (called : Hall) (n : Nat) (hall : Hall) : Prop :=
  called.world.workerHeld = false ∨
    ∃ line ∈ hall.log, line.caller ≠ .visitor n ∧ line.exchange = ⟨.takeWorker, true⟩

/-- The worker outlasts a visitor only when the visitor's time is up, or when somebody else waits for it. -/
def Excused (limit : Nat) (called : Hall) (n : Nat) (hall : Hall) : Prop :=
  hall.world.worker.isLive = true →
    called.world.clock + limit ≤ hall.world.clock ∨ Attended called n hall

/-- What holds at a place of the visitor who came to shut the node down when its hall was `called`, and has
been waiting for an answer since a moment. -/
def Standing (limit : Nat) (called : Hall) (n : Nat) (hall : Hall) (since : Nat) : Leaving → Prop
  | .signalling => hall.world.workerHeld = true ∨ Attended called n hall
  | .taking => hall.world.told = true ∧ (hall.world.workerHeld = true ∨ Attended called n hall)
  | .awaiting => hall.world.told = true ∧ called.world.clock ≤ since
  | .flushing | .gone => hall.world.told = true ∧ Excused limit called n hall

/-- The visitor who came to shut the node down is where it stands, or has gone. -/
structure Stands (limit : Nat) (called : Hall) (n : Nat) (hall : Hall) : Prop where
  present : hall.world.worker ≠ .absent
  clock : called.world.clock ≤ hall.world.clock
  visit : (∃ task leaving, hall.visits[n]? = some (.closing task) ∧
      task.program.Abides (Leaves limit) (fun _ leaving => leaving = .gone) leaving ∧
      Standing limit called n hall task.since leaving) ∨
    ∃ answer, hall.visits[n]? = some (.closed answer) ∧ Standing limit called n hall 0 .gone

theorem Attended.mono (attended : Attended called n hall)
    (log : ∀ line ∈ hall.log, line ∈ later.log) : Attended called n later := by
  apply attended.imp_right
  intro ⟨line, there, taken⟩
  exact ⟨line, log line there, taken⟩

theorem Excused.mono {mover : Option Nat} (excused : Excused limit called n hall)
    (present : hall.world.worker ≠ .absent) (moves : hall.Moves mover later) :
    Excused limit called n later := by
  intro live
  apply (excused (moves.isLive present live)).imp
  · intro up
    exact up.trans moves.clock
  · intro attended
    exact attended.mono moves.log

theorem Standing.mono {mover : Option Nat} {since : Nat} {leaving : Leaving}
    (standing : Standing limit called n hall since leaving) (present : hall.world.worker ≠ .absent)
    (moves : hall.Moves mover later) (other : mover ≠ some n) :
    Standing limit called n later since leaving := by
  have free : hall.world.workerHeld = true ∨ Attended called n hall →
      later.world.workerHeld = true ∨ Attended called n later := by
    rintro (held | attended)
    · exact (moves.held other held).imp_right .inr
    · exact .inr (attended.mono moves.log)
  cases leaving with
  | signalling => exact free standing
  | taking => exact ⟨moves.told present standing.1, free standing.2⟩
  | awaiting => exact ⟨moves.told present standing.1, standing.2⟩
  | flushing | gone => exact ⟨moves.told present standing.1, standing.2.mono present moves⟩

/-- The visitor makes a request. -/
theorem Standing.asks {chance : Chance} {since : Nat} {exchange : Service.Exchange} {after : World}
    {leaving leaving' : Leaving} (standing : Standing limit called n hall since leaving)
    (present : hall.world.worker ≠ .absent) (clock : called.world.clock ≤ hall.world.clock)
    (answers : World.Answers chance since hall.world exchange after)
    (leaves : Leaves limit leaving exchange leaving') (world : later.world = after)
    (log : ∀ line ∈ hall.log, line ∈ later.log) :
    Standing limit called n later hall.world.clock leaving' := by
  have told : hall.world.told = true → later.world.told = true := world ▸ answers.told present
  have worker : later.world.worker = hall.world.worker := world ▸ answers.present present
  have late : later.world.clock = hall.world.clock := world ▸ answers.clock
  cases leaves with
  | signal =>
    cases answers
    apply And.intro
    · rw [world]
    · rw [world]
      exact standing.imp_right fun attended => attended.mono log
  | @lead held =>
    cases held with
    | true => exact ⟨told standing.1, clock⟩
    | false =>
      -- The worker was there, so it is somebody else who has got to wait for it.
      have attended := standing.2.resolve_left fun held => by cases answers.taken_worker.trans held
      exact ⟨told standing.1, fun _ => .inr (attended.mono log)⟩
  | @await stopped =>
    apply And.intro (told standing.1)
    intro live
    rw [worker] at live
    cases answers with
    | outlast gone => cases live.symm.trans gone
    | giveUp up =>
      have asked : called.world.clock ≤ since := standing.2
      have up : since + limit ≤ hall.world.clock := by simpa using up
      left
      omega
  | flush =>
    apply And.intro (told standing.1)
    intro live
    rw [worker] at live
    rw [late]
    exact (standing.2 live).imp_right fun attended => attended.mono log

/-- What the turn of the visitor comes to. -/
theorem Stands.turn (stands : Stands limit called n hall) (chance : Chance)
    {task : Task Empty (Except QueueError Unit)} {leaving : Leaving}
    (found : hall.visits[n]? = some (.closing task))
    (abides : task.program.Abides (Leaves limit) (fun _ leaving => leaving = .gone) leaving)
    (standing : Standing limit called n hall task.since leaving) :
    Stands limit called n (hall.advance n (hall.world.act chance task) .closing .closed) := by
  obtain ⟨bound, -⟩ := List.getElem?_eq_some_iff.1 found
  have moves : hall.Moves (some n) (hall.advance n (hall.world.act chance task) .closing .closed) :=
    .advance
  have present := moves.present stands.present
  have clock := stands.clock.trans moves.clock
  have log := moves.log
  have acts := hall.world.acts chance task
  generalize hall.world.act chance task = act at acts present clock log ⊢
  refine ⟨present, clock, ?_⟩
  cases acts with
  | @finished answer ends =>
    rw [ends] at abides
    obtain rfl : leaving = .gone := abides
    exact .inr ⟨answer, List.getElem?_set_self bound, standing⟩
  | @began state => exact state.elim
  | @asked request next answer after asks answers =>
    rw [asks] at abides
    obtain ⟨leaving', leaves, rest⟩ := abides hall.world.store answer answers.possible
    exact .inl ⟨_, leaving', List.getElem?_set_self bound, rest,
      standing.asks stands.present stands.clock answers leaves rfl log⟩
  | waits => exact .inl ⟨task, leaving, found, abides, standing⟩

/-- Whatever happens next, the visitor stands somewhere. -/
theorem Stands.step (stands : Stands limit called n hall) (event : Hall.Event) :
    Stands limit called n (hall.step event) := by
  have moves := hall.moves event
  by_cases own : ∃ chance, event = .turn n chance
  · obtain ⟨chance, rfl⟩ := own
    rcases stands.visit with ⟨task, leaving, found, abides, standing⟩ | ⟨answer, found, standing⟩
    · simp only [Hall.step, found]
      exact stands.turn chance found abides standing
    · simp only [Hall.step, found]
      exact stands
  · have other : event.mover ≠ some n := by
      intro same
      cases event with
      | turn m chance =>
        cases same
        exact own ⟨chance, rfl⟩
      | _ => cases same
    constructor
    · exact moves.present stands.present
    · exact stands.clock.trans moves.clock
    · rcases stands.visit with ⟨task, leaving, found, abides, standing⟩ | ⟨answer, found, standing⟩
      · exact .inl ⟨task, leaving, Hall.visit_step other found, abides,
          standing.mono stands.present moves other⟩
      · exact .inr ⟨answer, Hall.visit_step other found, standing.mono stands.present moves other⟩

theorem moves (settings : Settings) (hall : Hall) (event : Event) :
    ∃ mover, hall.Moves mover (step settings hall event) := by
  cases event with
  | hall event => exact ⟨_, hall.moves event⟩
  | shutdown => exact ⟨_, .enter⟩

/-- What each event keeps is kept by any number of them. -/
theorem events_keep {P : Hall → Prop} (settings : Settings)
    (keeps : ∀ hall event, P hall → P (step settings hall event)) (events : List Event)
    (begins : P hall) : P (events.foldl (step settings) hall) := by
  induction events generalizing hall with
  | nil => exact begins
  | cons event events ih => exact ih (keeps hall event begins)

theorem staffed_step (settings : Settings) (hall : Hall) (event : Event) (staffed : hall.Staffed skip) :
    (step settings hall event).Staffed skip := by
  obtain ⟨mover, moved⟩ := moves settings hall event
  exact staffed.moves moved

theorem parted_step (settings : Settings) (hall : Hall) (event : Event)
    (parted : hall.Staffed skip ∧ shut.Parted hall) :
    (step settings hall event).Staffed skip ∧ shut.Parted (step settings hall event) := by
  obtain ⟨mover, moved⟩ := moves settings hall event
  constructor
  · exact parted.1.moves moved
  · exact parted.2.moves parted.1 moved

theorem stands_step (settings : Settings) (hall : Hall) (event : Event)
    (stands : Stands limit called n hall) : Stands limit called n (step settings hall event) := by
  cases event with
  | hall event => exact stands.step event
  | shutdown =>
    constructor
    · exact stands.present
    · exact stands.clock
    · rcases stands.visit with ⟨task, leaving, found, rest⟩ | ⟨answer, found, standing⟩
      · exact .inl ⟨task, leaving, Hall.visit_enter found, rest⟩
      · exact .inr ⟨answer, Hall.visit_enter found, standing⟩

/-- Whoever comes to shut the node down begins with the signal. -/
theorem stands_shutdown (settings : Settings) (present : hall.world.worker ≠ .absent) :
    Stands (patience settings) hall hall.visits.length (step settings hall .shutdown) where
  present := present
  clock := Nat.le_refl _
  visit := by
    have standing : hall.world.workerHeld = true ∨ Attended hall hall.visits.length hall := by
      cases held : hall.world.workerHeld with
      | true => exact .inl rfl
      | false => exact .inr (.inl held)
    refine .inl ⟨_, .signalling, List.getElem?_concat_length, ?_, standing⟩
    apply (abides_leave (patience settings)).bind
    intro answer leaving gone
    exact gone

/-- Whatever happens at a node, however its calls and its worker take turns, and whatever the store and the
gateway answer: once a shutdown has returned that came when the worker was there, the worker has stopped
unless the time to wait for it is up, or somebody else waits for it. From then on the worker takes no index
from the lane, and it makes a request only if it has not stopped by then: for the item it has in hand at
that moment, or to learn that it is dismissed. -/
theorem last_in_hand (settings : Settings) (clock : Nat) (backend : Backend) (secrets : Nat → Secret)
    (drawn : Nat) (earlier between later : List Event) :
    let world := World.build clock backend secrets drawn settings.queueOptions
    let called := run settings world earlier
    let shut := run settings world (earlier ++ .shutdown :: between)
    let last := run settings world (earlier ++ .shutdown :: between ++ later)
    called.world.worker ≠ .absent →
    ∀ answer, shut.visits[called.visits.length]? = some (.closed answer) →
      Excused (patience settings) called called.visits.length shut ∧
      last.received = shut.received ∧
      ∃ lines, last.log = shut.log ++ lines ∧ ∀ line ∈ lines, line.Parting shut := by
  intro world called shut last present answer answered
  have staffed : shut.Staffed settings.skipProcessing :=
    events_keep settings (staffed_step settings) _
      (Hall.staffed_start clock backend secrets drawn settings.queueOptions)
  have reached : shut = between.foldl (step settings) (step settings called .shutdown) := by
    simp only [shut, called, run, List.foldl_append, List.foldl_cons]
  have goesOn : last = later.foldl (step settings) shut := List.foldl_append
  have stands : Stands (patience settings) called called.visits.length shut :=
    reached ▸ events_keep settings (stands_step settings) between (stands_shutdown settings present)
  obtain ⟨told, excused⟩ : shut.world.told = true ∧
      Excused (patience settings) called called.visits.length shut := by
    rcases stands.visit with ⟨task, leaving, found, -⟩ | ⟨answer', -, standing⟩
    · cases answered.symm.trans found
    · exact standing
  have parted : last.Staffed settings.skipProcessing ∧ shut.Parted last :=
    goesOn ▸ events_keep settings (parted_step settings) later ⟨staffed, .now told stands.present⟩
  exact ⟨excused, parted.2.received, parted.2.log⟩

/-- What the visitor has answered who closed the queue. -/
def closed (hall : Hall) (n : Nat) : Option (Except QueueError Unit) :=
  match hall.visits[n]? with
  | some (.closed answer) => some answer
  | _ => none

theorem found_of_closed {answer : Except QueueError Unit} (h : closed hall n = some answer) :
    hall.visits[n]? = some (.closed answer) := by
  unfold closed at h
  split at h
  · cases h
    assumption
  · cases h

/-- The worker is at the first of two items when a shutdown gives up waiting for it. It brings this item to
rest, and leaves the other on the lane. -/
theorem last_in_hand_slow :
    let settings : Settings := { Settings.default with shutdownTimeout := 1 }
    let request (name : String) : ItemRequest := .register ⟨name, "", "", ""⟩
    let chance : Chance := ⟨⟨fun _ => .error (.connection ""), none, 5⟩, .ok (.fill 1)⟩
    let turns (n visitor : Nat) : List Event := List.replicate n (.hall (.turn visitor chance))
    let works (n : Nat) : List Event := List.replicate n (.hall (.work chance))
    let earlier : List Event := [.hall .run] ++ turns 14 0 ++
      [.hall (.add (request "a.any") (by decide)), .hall (.add (request "b.any") (by decide))] ++
      turns 9 1 ++ turns 9 2 ++ works 2
    let between : List Event := turns 2 3 ++ [.hall (.wait 1000)] ++ turns 3 3
    let world := World.build 0 (Backend.fresh .sample ⟨7, 1⟩ 0) (fun _ => .fill 1) 0 settings.queueOptions
    let shut := run settings world (earlier ++ .shutdown :: between)
    let last := run settings world (earlier ++ .shutdown :: between ++ works 14)
    closed shut 3 = some (.ok ()) ∧ shut.hand = some 0 ∧ last.received = [0] ∧
      last.left = [1] ∧ ∃ lines, last.log = shut.log ++ lines ∧ ∀ line ∈ lines, line.Parting shut := by
  intro settings request chance turns works earlier between
  have whole := last_in_hand settings 0 (Backend.fresh .sample ⟨7, 1⟩ 0) (fun _ => .fill 1) 0 earlier
    between (works 14)
  extract_lets world called shut last at whole
  have live : called.world.worker.isLive = true := by decide
  have present : called.world.worker ≠ .absent := fun absent => by
    rw [absent] at live
    cases live
  have number : called.visits.length = 3 := by decide
  have answered : closed shut 3 = some (.ok ()) := by decide
  rw [number] at whole
  obtain ⟨-, received, lines⟩ := whole present (.ok ()) (found_of_closed answered)
  have taken : shut.received = [0] := by decide
  have hand : shut.hand = some 0 := by decide
  have left : last.left = [1] := by decide +kernel
  intro world' shut' last'
  exact ⟨answered, hand, received.trans taken, left, lines⟩

end Node

end Registrar
