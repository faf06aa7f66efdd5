import Registrar.Proofs.Hall.LaneAccount
import Registrar.Proofs.Hall.ServedItems

/-!
Who works on items in a hall, and on which. While the store does not fail, `Balanced` holds of a hall at
any time: a queue is claimed by one run at most, whose scan looks after what an earlier queue has left;
then the worker takes the indices from the lane, one at a time; and nobody touches an item in between.
-/

namespace Registrar

open Item (Status)
open Hall (filed posted linesOf Records)

/-- Whether the queue is running after an exchange. -/
def Service.Exchange.runs (running : Bool) : Service.Exchange → Bool
  | ⟨.claimRun, _⟩ => true
  | ⟨.releaseRun, _⟩ => false
  | _ => running

/-- The store did not fail, and answered what it has. -/
def Service.Exchange.Faithful (store : Store) : Service.Exchange → Prop
  | ⟨.work request, answer⟩ => Registrar.Exchange.Faithful store ⟨request, answer⟩
  | _ => True

namespace World.Answers

variable {chance : Chance} {since : Nat} {world after : World} {exchange : Service.Exchange}

theorem running (answers : Answers chance since world exchange after) :
    after.running = exchange.runs world.running := by
  cases answers <;> rfl

theorem claimed {held : Bool} (answers : Answers chance since world ⟨.claimRun, held⟩ after) :
    held = world.running := by
  cases answers
  rfl

theorem started {answer : Bool} (answers : Answers chance since world ⟨.startWorker, answer⟩ after)
    (absent : world.worker = .absent) :
    answer = true ∧ after.worker = .live world.newWorker := by
  cases answers with
  | hire => exact ⟨rfl, rfl⟩
  | keep present => exact absurd absent present

theorem faithful (answers : Answers chance since world exchange after)
    (steady : chance.failure = none) : exchange.Faithful world.store := by
  cases answers with
  | work => exact Fortune.faithful steady world.store _
  | _ => trivial

end World.Answers

/-- How far the task of a run has come. -/
structure Task.Pursues (skip : Bool) (task : Task Queue.RunStage (Except QueueError Unit))
    (running : Running) : Prop where
  program : task.program.Abides (Runs skip) Running.Ends running
  round : ∀ resume,
    (task.round (.resuming resume)).Abides (Runs skip) Running.Ends (.scanning resume)

/-- How far the task of the worker has come. -/
structure Task.Labours (skip : Bool) (task : Task Unit Unit) (working : Working) : Prop where
  program : task.program.Abides (Works skip) Working.Ends working
  round : ∀ state, (task.round state).Abides (Works skip) Working.Ends .resting

namespace Hall

/-- Who may work on items. -/
inductive Watch where
  | idle
  /-- A visitor has claimed the queue. -/
  | scanning (n : Nat) (running : Running)
  /-- The scan is over, and no worker was wanted. -/
  | unmanned
  | manned (working : Working)
  | gone

def Watch.busy : Watch → Bool
  | .idle => false
  | _ => true

/-- The worker of a world on a watch. -/
def Watch.Mans (skip : Bool) : Watch → Worker → Prop
  | .manned working, worker => ∃ task, worker = .live task ∧ task.Labours skip working
  | .gone, worker => worker = .stopped
  | _, worker => worker = .absent

/-- The tasks of a hall are where the watch has them. -/
structure Manned (hall : Hall) (skip : Bool) (watch : Watch) : Prop where
  runs : ∀ (n : Nat) task, hall.visits[n]? = some (.running task) → ∃ running,
    task.Pursues skip running ∧
      (running = .claiming ∨ running = .leaving ∨ watch = .scanning n running)
  closes : ∀ (n : Nat) task, hall.visits[n]? = some (.closing task) →
    task.program.Abides Closes (fun _ _ => True) ()
  busy : hall.world.running = watch.busy
  skips : hall.world.options.skipProcessing = skip
  worker : watch.Mans skip hall.world.worker

/-- The items that a scan is to bring to rest. -/
def Scanned (store : Store) (log : List Line) (received : List Int64) : Running → Prop
  | .scanning resume => (∀ status ∈ resume.buckets, status.isTerminal = false) ∧
      Kept store log received resume.Awaits
  | .serving resume index stage => (∀ status ∈ resume.buckets, status.isTerminal = false) ∧
      Serving store index stage ∧
      Kept store log received fun item =>
        (item.index = index ∧ stage ≠ .idle) ∨ resume.Awaits item
  | _ => False

/-- What the worker has in hand, and its item. -/
def Handled (store : Store) (hand : Option Int64) : Working → Prop
  | .resting | .leaving => hand = none
  | .seeking index => hand = some index
  | .serving index stage => hand = some index ∧ Serving store index stage ∧ stage ≠ .idle
  | .missing => False

/-- The items that are not at rest are looked after on a watch. -/
def Watch.Guards (store : Store) (log : List Line) (received : List Int64) (hand : Option Int64) :
    Watch → Prop
  | .idle => True
  | .scanning _ running => Scanned store log received running
  | .manned working => Handled store hand working ∧
      Kept store log received fun item => hand = some item.index
  | .unmanned | .gone => hand = none ∧ Kept store log received fun _ => False

/-- A request to the gateway is made by the worker, for an item whose index it has taken from the lane. -/
def Rightful (skip : Bool) (before : List Line) (line : Line) : Prop :=
  ∀ request answer, line.exchange = ⟨.work (.gateway request), answer⟩ →
    ∃ index stage item stage', line.caller = .worker (some index) ∧ index ∈ posted before ∧
      index ∉ line.before.lane.waiting ∧ stage.item = some item ∧ item.index = index ∧
      Conducts skip stage ⟨.gateway request, answer⟩ stage'

/-- What holds of a hall at any time, as long as the store does not fail. -/
structure Balanced (hall : Hall) (capacity : Nat) (skip : Bool) (watch : Watch) : Prop where
  orderly : ∃ holder, hall.Orderly holder
  accounted : hall.Accounted capacity
  manned : hall.Manned skip watch
  proper : ∀ item ∈ filed hall.log, Items.Proper hall.world.store item.index
  guards : watch.Guards hall.world.store hall.log hall.received hall.hand
  calls : ∀ before line, before ++ [line] <+: hall.log → line.before.worker ≠ .absent →
    Rightful skip before line

end Hall

/-- Whether a request is none of those by which the queue is run and the gateway is asked. -/
def Service.Request.aside : Service.Request → Bool
  | .claimRun | .releaseRun | .startWorker | .receive | .work (.gateway _) => false
  | _ => true

section

variable {chance : Chance} {since : Nat} {world after : World} {exchange : Service.Exchange}

theorem Hall.untaken_of_aside (aside : exchange.request.aside = true) : Hall.taken? exchange = none := by
  obtain ⟨request, answer⟩ := exchange
  cases request <;> first | rfl | cases aside

/-- Every request but those to the gateway has the right to be made. -/
theorem Hall.rightful {skip : Bool} {before : List Hall.Line} {line : Hall.Line}
    (other : ∀ request, line.exchange.request ≠ .work (.gateway request)) :
    Hall.Rightful skip before line :=
  fun request _ same => absurd (congrArg Service.Exchange.request same) (other request)

theorem Service.Request.ne_gateway {request : Service.Request} (aside : request.aside = true)
    (asked : Gateway.Request) : request ≠ .work (.gateway asked) := by
  rintro rfl
  cases aside

/-- Such a request leaves the worker and the queue as they are. -/
theorem World.Answers.aside (answers : Answers chance since world exchange after)
    (aside : exchange.request.aside = true) :
    after.worker = world.worker ∧ after.running = world.running := by
  cases answers <;> first | exact ⟨rfl, rfl⟩ | cases aside

end

namespace Adds

variable {request : ItemRequest} {stage stage' : Adding} {exchange : Service.Exchange} {n : Nat}
  {world : World} {log : List Hall.Line}

theorem aside (adds : Adds request stage exchange stage') : exchange.request.aside = true := by
  cases adds <;> rfl

theorem spares (adds : Adds request stage exchange stage') (fits : request.Fits)
    (known : stage.Known request world.store log n) (caller : Hall.Caller) :
    (⟨caller, world, exchange⟩ : Hall.Line).Spares := by
  rcases adds.changes caller world with ⟨unchanged, _⟩ | ⟨item, rfl, rfl, rfl⟩
  · exact Hall.Line.spares_of_still unchanged
  · obtain ⟨files, regular⟩ := filed? fits known caller
    refine ⟨fun none => ?_, fun other same => ?_⟩
    · cases files.symm.trans none
    · cases files.symm.trans same
      exact ⟨Hall.Line.fits_of_filed regular files, rfl, known.2⟩

end Adds

theorem Closes.aside {exchange : Service.Exchange} {mark mark' : Unit}
    (closes : Closes mark exchange mark') : exchange.request.aside = true ∧
      ∀ caller world, (⟨caller, world, exchange⟩ : Hall.Line).changes = false ∧
        Hall.Line.told? ⟨caller, world, exchange⟩ = none := by
  obtain ⟨request, answer⟩ := exchange
  cases request with
  | signalStop | takeWorker | awaitWorker => exact ⟨rfl, fun _ _ => ⟨rfl, rfl⟩⟩
  | work request =>
    cases request with
    | store request =>
      cases request with
      | flush => exact ⟨rfl, fun _ _ => ⟨by cases answer <;> rfl, rfl⟩⟩
      | _ => exact closes.elim
    | _ => exact closes.elim
  | _ => exact closes.elim

namespace Hall

variable {hall : Hall} {capacity : Nat} {skip : Bool} {watch : Watch} {n : Nat}

/-- Where a request spares the items, they stay looked after as they are. -/
theorem Watch.Guards.spares {log : List Line} {line : Line} {received : List Int64}
    {hand : Option Int64} (guards : watch.Guards line.before.store log received hand)
    (spares : line.Spares) (fresh : ∀ item, line.filed? = some item → item.index ∉ received) :
    watch.Guards line.after (log ++ [line]) received hand := by
  cases watch with
  | idle => trivial
  | scanning m running =>
    cases running with
    | scanning resume => exact ⟨guards.1, spares.kept guards.2 fresh⟩
    | serving resume index stage =>
      exact ⟨guards.1, guards.2.1.congr fun _ => spares.has, spares.kept guards.2.2 fresh⟩
    | _ => exact guards
  | manned working =>
    refine ⟨?_, spares.kept guards.2 fresh⟩
    cases working with
    | serving index stage =>
      exact ⟨guards.1.1, guards.1.2.1.congr fun _ => spares.has, guards.1.2.2⟩
    | _ => exact guards.1
  | unmanned | gone => exact ⟨guards.1, spares.kept guards.2 fresh⟩

theorem Balanced.received_filed (balanced : hall.Balanced capacity skip watch) {index : Int64}
    (there : index ∈ hall.received) : ∃ item ∈ filed hall.log, item.index = index := by
  obtain ⟨holder, orderly⟩ := balanced.orderly
  have taken : index ∈ posted hall.log := by
    rw [balanced.accounted.posted]
    exact List.mem_append_left _ (List.mem_append_left _ there)
  obtain ⟨m, item, records, same⟩ := orderly.poster taken
  exact ⟨item, records.filed, same⟩

/-- The tasks stay where the watch has them, but for the one of a visitor. -/
theorem Manned.visit {later : Hall} {watch' : Watch} {visit : Visit} (manned : hall.Manned skip watch)
    (visits : later.visits = hall.visits.set n visit)
    (runs : ∀ task, visit = .running task → ∃ running, task.Pursues skip running ∧
      (running = .claiming ∨ running = .leaving ∨ watch' = .scanning n running))
    (closes : ∀ task, visit = .closing task → task.program.Abides Closes (fun _ _ => True) ())
    (others : ∀ m running, m ≠ n → watch = .scanning m running → watch' = .scanning m running)
    (busy : later.world.running = watch'.busy) (options : later.world.options = hall.world.options)
    (worker : watch'.Mans skip later.world.worker) : later.Manned skip watch' where
  runs m task found := by
    rw [visits] at found
    rcases Orderly.set_eq found with ⟨rfl, same⟩ | ⟨apart, before⟩
    · exact runs task same.symm
    · obtain ⟨running, pursues, idle⟩ := manned.runs m task before
      exact ⟨running, pursues, idle.imp_right (Or.imp_right (others m running apart))⟩
  closes m task found := by
    rw [visits] at found
    rcases Orderly.set_eq found with ⟨rfl, same⟩ | ⟨_, before⟩
    · exact closes task same.symm
    · exact manned.closes m task before
  busy := busy
  skips := options ▸ manned.skips
  worker := worker

/-- While nobody is scanning, those who run the queue have nothing to do with any item. -/
theorem Manned.runs_aside (manned : hall.Manned skip watch)
    (aside : ∀ n running, watch ≠ .scanning n running) (watch' : Watch) :
    ∀ (n : Nat) task, hall.visits[n]? = some (.running task) → ∃ running, task.Pursues skip running ∧
      (running = .claiming ∨ running = .leaving ∨ watch' = .scanning n running) := by
  intro n task found
  obtain ⟨running, pursues, place⟩ := manned.runs n task found
  exact ⟨running, pursues, place.imp_right (Or.imp_right fun same => absurd same (aside n running))⟩

/-- A request that has the right to be made adds to those made before. -/
theorem calls_append {log : List Line} {line : Line}
    (calls : ∀ before line, before ++ [line] <+: log → line.before.worker ≠ .absent →
      Rightful skip before line)
    (last : line.before.worker ≠ .absent → Rightful skip log line) :
    ∀ before other, before ++ [other] <+: log ++ [line] → other.before.worker ≠ .absent →
      Rightful skip before other := by
  intro before other start present
  rcases List.prefix_concat_iff.1 start with same | start
  · obtain ⟨rfl, only⟩ := List.append_inj' same rfl
    obtain rfl := List.singleton_inj.1 only
    exact last present
  · exact calls before other start present

/-- A visitor makes a request by which neither the queue is run nor an item is worked on. -/
theorem Balanced.aside {chance : Chance} {since : Nat} {exchange : Service.Exchange} {after : World}
    {visit : Visit} (balanced : hall.Balanced capacity skip watch)
    (answers : World.Answers chance since hall.world exchange after)
    (aside : exchange.request.aside = true)
    (spares : Line.Spares ⟨.visitor n, hall.world, exchange⟩)
    (fresh : ∀ index, exchange = ⟨.announce index, .ok ()⟩ → index ∉ posted hall.log)
    (idle : ∀ task, visit ≠ .running task)
    (closes : ∀ task, visit = .closing task → task.program.Abides Closes (fun _ _ => True) ()) :
    let later : Hall := { hall with
      world := after, visits := hall.visits.set n visit
      log := hall.log ++ [⟨.visitor n, hall.world, exchange⟩] }
    (∃ holder, later.Orderly holder) → later.Balanced capacity skip watch := by
  intro later orderly
  obtain ⟨worker, running⟩ := answers.aside aside
  have store : later.world.store = Line.after ⟨.visitor n, hall.world, exchange⟩ := answers.store
  refine ⟨orderly, ?_, ?_, fun item there => ?_, ?_, ?_⟩
  · refine balanced.accounted.untaken (.visitor n) (untaken_of_aside aside) rfl answers.lane rfl rfl rfl
      (fun index same => ?_) ⟨fun absent => worker ▸ absent, by rw [← worker]⟩
    subst same
    exact ⟨answers.room.1, answers.room.2, fresh index rfl⟩
  · refine balanced.manned.visit rfl (fun task same => absurd same (idle task)) closes
      (fun _ _ _ same => same) (running.trans balanced.manned.busy) answers.options ?_
    exact worker ▸ balanced.manned.worker
  · rw [store]
    rw [filed_append] at there
    rcases List.mem_append.1 there with before | last
    · exact spares.proper (balanced.proper item before)
    · exact spares.proper_filed (Option.mem_toList.1 last)
  · rw [store]
    refine balanced.guards.spares spares fun item files there => ?_
    obtain ⟨other, stored, same⟩ := balanced.received_filed there
    have free := (spares.stores item files).2.2
    rw [← same, (balanced.proper other stored).contains] at free
    cases free
  · exact calls_append balanced.calls fun _ => rightful (Service.Request.ne_gateway aside)

/-- Nobody makes a request. -/
theorem Balanced.still {later : Hall} {watch' : Watch} (balanced : hall.Balanced capacity skip watch)
    (orderly : ∃ holder, later.Orderly holder) (log : later.log = hall.log)
    (store : later.world.store = hall.world.store) (lane : later.world.lane = hall.world.lane)
    (received : later.received = hall.received) (left : later.left = hall.left)
    (hand : later.hand = hall.hand) (worker : later.world.worker = hall.world.worker)
    (manned : later.Manned skip watch')
    (guards : watch'.Guards hall.world.store hall.log hall.received hall.hand) :
    later.Balanced capacity skip watch' where
  orderly := orderly
  accounted := by
    obtain ⟨posted, distinct, bound, capacity, early, kept, late, held⟩ := balanced.accounted
    constructor
    · rw [log, received, left, lane, posted]
    · rw [log]
      exact distinct
    · rw [lane]
      exact bound
    · rw [lane]
      exact capacity
    · rw [worker, received, hand]
      exact early
    · rw [worker, left]
      exact kept
    · rw [worker, lane]
      exact late
    · rw [hand, received]
      exact held
  manned := manned
  proper := by
    rw [log, store]
    exact balanced.proper
  guards := by
    rw [store, log, received, hand]
    exact guards
  calls := by
    rw [log]
    exact balanced.calls

/-- A visit ends by which no item is worked on. -/
theorem Balanced.leave (balanced : hall.Balanced capacity skip watch) {visit : Visit}
    (orderly : ∃ holder, Orderly { hall with visits := hall.visits.set n visit } holder)
    (running : ∀ task, visit ≠ .running task) (closing : ∀ task, visit ≠ .closing task) :
    Balanced { hall with visits := hall.visits.set n visit } capacity skip watch := by
  refine balanced.still orderly rfl rfl rfl rfl rfl rfl rfl ?_ balanced.guards
  exact balanced.manned.visit rfl (fun task same => absurd same (running task))
    (fun task same => absurd same (closing task)) (fun _ _ _ same => same) balanced.manned.busy rfl
    balanced.manned.worker

variable (chance : Chance)

/-- The turn of a visitor who adds a request. -/
theorem Balanced.turn_adding (balanced : hall.Balanced capacity skip watch) {request : ItemRequest}
    {task : Task Empty (Except QueueError Int64)}
    (found : hall.visits[n]? = some (.adding request task)) :
    (hall.advance n (hall.world.act chance task) (.adding request)
      (.added request)).Balanced capacity skip watch := by
  obtain ⟨holder, orderly⟩ := balanced.orderly
  obtain ⟨holder', orderly'⟩ := orderly.turn_adding chance found
  obtain ⟨fits, stage, abides, -, known, records⟩ := orderly.visits n _ found
  have acts := hall.world.acts chance task
  generalize hall.world.act chance task = act at acts orderly' ⊢
  cases acts with
  | finished ends =>
    exact balanced.leave ⟨holder', orderly'⟩ (fun _ absent => by cases absent) fun _ absent => by cases absent
  | @began state => exact state.elim
  | @asked asked next answer after asks answers =>
    rw [asks] at abides
    obtain ⟨stage', adds, -⟩ := abides hall.world.store answer answers.possible
    refine balanced.aside answers adds.aside (adds.spares fits known _) (fun index same there => ?_)
      (fun _ absent => by cases absent) (fun _ absent => by cases absent) ⟨holder', orderly'⟩
    -- Whoever has announced the index has stored its item, and that is this visitor.
    rcases adds.tells (.visitor n) hall.world with ⟨untold, _⟩ | ⟨item, answer', rfl, rfl, same'⟩
    · rw [same] at untold
      cases untold
    · rw [same] at same'
      cases same'
      obtain ⟨m, other, records', same⟩ := orderly.poster there
      cases (Records.unique orderly.sound records records' same.symm).2
  | waits => exact balanced

/-- The turn of a visitor who closes the queue. -/
theorem Balanced.turn_closing (balanced : hall.Balanced capacity skip watch)
    {task : Task Empty (Except QueueError Unit)} (found : hall.visits[n]? = some (.closing task)) :
    (hall.advance n (hall.world.act chance task) .closing .closed).Balanced capacity skip watch := by
  obtain ⟨holder, orderly⟩ := balanced.orderly
  have orderly' : (hall.advance n (hall.world.act chance task) .closing .closed).Orderly holder :=
    orderly.turn_tame chance found (fun _ _ _ => Iff.rfl) (fun _ _ _ => Iff.rfl)
      ⟨fun _ => rfl, fun _ => rfl⟩
  have abides := balanced.manned.closes n task found
  have acts := hall.world.acts chance task
  generalize hall.world.act chance task = act at acts orderly' ⊢
  cases acts with
  | finished ends =>
    exact balanced.leave ⟨holder, orderly'⟩ (fun _ absent => by cases absent) fun _ absent => by cases absent
  | @began state => exact state.elim
  | @asked asked next answer after asks answers =>
    rw [asks] at abides
    obtain ⟨⟨⟩, closes, later⟩ := abides hall.world.store answer answers.possible
    obtain ⟨aside, quiet⟩ := Closes.aside closes
    refine balanced.aside answers aside (Line.spares_of_still (quiet _ _).1) (fun index same => ?_)
      (fun _ absent => by cases absent) (fun task same => ?_) ⟨holder, orderly'⟩
    · have untold := (quiet (.visitor n) hall.world).2
      rw [same] at untold
      cases untold
    · cases same
      exact later
  | waits => exact balanced

end Hall

theorem Task.pursues_ofRounds (clock : Nat) (options : Queue.Options) :
    (Task.ofRounds clock (Queue.runRound options) .claiming).Pursues options.skipProcessing .claiming :=
  ⟨Queue.abides_claiming options, Queue.abides_resuming options⟩

theorem Runs.untaken {skip : Bool} {running running' : Running} {exchange : Service.Exchange}
    (runs : Runs skip running exchange running') :
    Hall.taken? exchange = none ∧ ∀ index, exchange ≠ ⟨.announce index, .ok ()⟩ := by
  cases runs <;> exact ⟨rfl, fun index same => by cases congrArg Service.Exchange.request same⟩

namespace Hall

variable {hall : Hall} {capacity : Nat} {skip : Bool} {watch : Watch} {n : Nat}

/-- A visitor who runs the queue makes a request. -/
theorem Balanced.run {chance : Chance} {since : Nat} {exchange : Service.Exchange} {after : World}
    {running running' : Running} {task : Task Queue.RunStage (Except QueueError Unit)}
    {watch' : Watch} (balanced : hall.Balanced capacity skip watch)
    (answers : World.Answers chance since hall.world exchange after)
    (runs : Runs skip running exchange running') (pursues : task.Pursues skip running')
    (place : running' = .claiming ∨ running' = .leaving ∨ watch' = .scanning n running')
    (others : ∀ m running, m ≠ n → watch = .scanning m running → watch' = .scanning m running)
    (busy : exchange.runs hall.world.running = watch'.busy) (mans : watch'.Mans skip after.worker)
    (worker : (after.worker = .absent → hall.world.worker = .absent) ∧
      (after.worker = .stopped ↔ hall.world.worker = .stopped))
    (proper : ∀ item ∈ filed hall.log, Items.Proper (exchange.on hall.world.store) item.index)
    (unfiled : Line.filed? ⟨.visitor n, hall.world, exchange⟩ = none)
    (guards : watch'.Guards (exchange.on hall.world.store)
      (hall.log ++ [⟨.visitor n, hall.world, exchange⟩]) hall.received hall.hand)
    (rightful : hall.world.worker ≠ .absent →
      Rightful skip hall.log ⟨.visitor n, hall.world, exchange⟩) :
    let later : Hall := { hall with
      world := after, visits := hall.visits.set n (.running task)
      log := hall.log ++ [⟨.visitor n, hall.world, exchange⟩] }
    (∃ holder, later.Orderly holder) → later.Balanced capacity skip watch' := by
  intro later orderly
  obtain ⟨untaken, unposted⟩ := runs.untaken
  have store : later.world.store = exchange.on hall.world.store := answers.store
  refine ⟨orderly, ?_, ?_, fun item there => ?_, store ▸ guards, calls_append balanced.calls rightful⟩
  · exact balanced.accounted.untaken (.visitor n) untaken rfl answers.lane rfl rfl rfl
      (fun index same => absurd same (unposted index)) worker
  · refine balanced.manned.visit rfl (fun task' same => ?_) (fun _ absent => by cases absent) others
      (answers.running.trans busy) answers.options mans
    cases same
    exact ⟨running', pursues, place⟩
  · rw [store]
    rw [filed_append, unfiled, Option.toList_none, List.append_nil] at there
    exact proper item there

section

variable {world : World} {store : Store} {log : List Line} {received : List Int64} {resume : Resume}

theorem Scanned.start : Scanned store log received (.scanning .start) := by
  refine ⟨fun status there => Status.mem_resumeBuckets.1 there, fun item _ live => .inr ?_⟩
  exact Resume.awaits_start live

/-- A search goes on with what it finds, or in the next bucket. -/
theorem Scanned.search {bucket : Status} {later : List Status} {tried : List Int64}
    (scanned : Scanned store log received (.scanning ⟨bucket :: later, tried⟩)) :
    Scanned store log received (.searched bucket later tried (.ok (store.scan Items.keyStart))) := by
  obtain ⟨live, kept⟩ := scanned
  unfold Running.searched
  dsimp only
  cases picked : Resume.pick tried (Items.select bucket (store.scan Items.keyStart)) with
  | none =>
    exact ⟨fun status there => live status (List.mem_cons_of_mem _ there), Resume.kept_none kept picked⟩
  | some found =>
    obtain ⟨fits, ready⟩ := Resume.fits_of_pick (live bucket List.mem_cons_self) picked
    refine ⟨live, .first fits (.inr ready), (Resume.kept_some found kept).mono fun item => ?_⟩
    exact Or.imp_left fun same => ⟨same, nofun⟩

/-- The work on an item that a scan has found keeps all others waiting. -/
theorem Scanned.serve {index : Int64} {stage stage' : Stage} {exchange : Exchange}
    {caller : Caller} (scanned : Scanned world.store log received (.serving resume index stage))
    (conducts : Conducts skip stage exchange stage') (faithful : exchange.Faithful world.store)
    (unfiled : Line.filed? ⟨caller, world, exchange.served⟩ = none) :
    Scanned (exchange.on world.store) (log ++ [⟨caller, world, exchange.served⟩]) received
      (.serving resume index stage') := by
  obtain ⟨live, serving, kept⟩ := scanned
  refine ⟨live, serving.keeps conducts faithful, kept.serve serving conducts faithful unfiled ?_ ?_⟩
  · intro item has same
    refine .inl ⟨same, fun idle => ?_⟩
    subst idle
    have lost := serving.lost conducts faithful
    rw [← same, has.contains] at lost
    cases lost
  · intro item apart charge
    exact .inr (charge.resolve_left fun own => apart own.1)

/-- When the work on an item is over, the scan waits for the others. -/
theorem Scanned.goOn {running : Running} (scanned : Scanned store log received running)
    (leads : running.Leads resume) : Scanned store log received (.scanning resume) := by
  obtain rfl | ⟨index, stage, rfl, ceased⟩ := leads
  · exact scanned
  · obtain ⟨live, serving, kept⟩ := scanned
    refine ⟨live, fun item has ready => (kept item has ready).imp_right fun charge => ?_⟩
    refine charge.resolve_left fun ⟨same, working⟩ => ?_
    cases ready.symm.trans (serving.rests ceased working has same)

/-- A scan that is over has left nothing. -/
theorem Scanned.over {tried : List Int64} (scanned : Scanned store log received (.scanning ⟨[], tried⟩)) :
    Kept store log received fun _ => False :=
  scanned.2.mono fun _ awaits => by cases awaits.1

end

/-- A request that changes nothing leaves everything looked after as it is. -/
theorem Watch.Guards.keep {caller : Caller} {world : World} {exchange : Service.Exchange}
    {log : List Line} {received : List Int64} {hand : Option Int64}
    (guards : watch.Guards world.store log received hand)
    (unchanged : Line.changes ⟨caller, world, exchange⟩ = false) :
    watch.Guards (exchange.on world.store) (log ++ [⟨caller, world, exchange⟩]) received hand :=
  guards.spares (Line.spares_of_still unchanged) fun _ files => by
    cases (Line.still unchanged).2.symm.trans files

/-- Only one visitor is scanning at a time. -/
theorem Watch.scanning_ne {m : Nat} {running running' : Running} (other : m ≠ n) :
    Watch.scanning n running ≠ .scanning m running' :=
  fun same => other (Watch.scanning.inj same).1.symm

theorem Watch.eq_scanning {running : Running} (place : running = .claiming ∨ running = .leaving ∨
    watch = .scanning n running) (working : running ≠ .claiming ∧ running ≠ .leaving) :
    watch = .scanning n running :=
  (place.resolve_left working.1).resolve_left working.2

/-- The request of a visitor who runs the queue. -/
theorem Balanced.asks_running {chance : Chance} {since : Nat} {exchange : Service.Exchange}
    {after : World} {running running' : Running} {task : Task Queue.RunStage (Except QueueError Unit)}
    (balanced : hall.Balanced capacity skip watch) (steady : chance.failure = none)
    (answers : World.Answers chance since hall.world exchange after)
    (place : running = .claiming ∨ running = .leaving ∨ watch = .scanning n running)
    (runs : Runs skip running exchange running') (pursues : task.Pursues skip running')
    (unfiled : Line.filed? ⟨.visitor n, hall.world, exchange⟩ = none) :
    let later : Hall := { hall with
      world := after, visits := hall.visits.set n (.running task)
      log := hall.log ++ [⟨.visitor n, hall.world, exchange⟩] }
    (∃ holder, later.Orderly holder) → ∃ watch', later.Balanced capacity skip watch' := by
  intro later orderly
  have faithful := answers.faithful steady
  have mans := balanced.manned.worker
  have guards := balanced.guards
  -- Only a request to start the worker changes who works.
  have stays : exchange.request ≠ .startWorker → after.worker = hall.world.worker := fun other =>
    answers.worker.resolve_right fun started => other (congrArg Service.Exchange.request started.1)
  have kinds : after.worker = hall.world.worker → (after.worker = .absent → hall.world.worker = .absent) ∧
      (after.worker = .stopped ↔ hall.world.worker = .stopped) := fun worker => by
    rw [worker]
    exact ⟨id, Iff.rfl⟩
  -- Nobody else was scanning if this visitor is.
  have alone : ∀ {watch' : Watch} {running : Running} (m : Nat) (running' : Running), m ≠ n →
      Watch.scanning n running = .scanning m running' → watch' = .scanning m running' :=
    fun _ _ other same => absurd same (Watch.scanning_ne other)
  cases runs with
  | @claim held =>
    have worker := stays nofun
    have known := answers.claimed.trans balanced.manned.busy
    cases held with
    | true =>
      exact ⟨watch, balanced.run answers .claim pursues (.inr (.inl rfl)) (fun _ _ _ => id)
        known (worker ▸ mans) (kinds worker) balanced.proper unfiled (guards.keep rfl)
        (fun _ => rightful nofun) orderly⟩
    | false =>
      cases watch with
      | idle =>
        have kept : Watch.Guards hall.world.store hall.log hall.received hall.hand
            (.scanning n (.scanning .start)) := Scanned.start
        exact ⟨.scanning n (.scanning .start), balanced.run answers .claim pursues (.inr (.inr rfl))
          (fun _ _ _ absent => by cases absent) rfl (worker ▸ mans) (kinds worker) balanced.proper unfiled
          (kept.keep rfl) (fun _ => rightful nofun) orderly⟩
      | _ => cases known
  | @search bucket rest tried answer =>
    obtain rfl := Watch.eq_scanning place ⟨nofun, nofun⟩
    have worker := stays nofun
    cases faithful
    have kept : Watch.Guards hall.world.store hall.log hall.received hall.hand (.scanning n
        (.searched bucket rest tried (.ok (hall.world.store.scan Items.keyStart)))) :=
      Scanned.search guards
    exact ⟨.scanning n _, balanced.run answers .search pursues (.inr (.inr rfl)) alone
      balanced.manned.busy (worker ▸ mans) (kinds worker) balanced.proper unfiled (kept.keep rfl)
      (fun _ => rightful nofun) orderly⟩
  | @serve resume index stage exchange stage' conducts =>
    obtain rfl := Watch.eq_scanning place ⟨nofun, nofun⟩
    have worker := stays nofun
    have proper : ∀ item ∈ filed hall.log,
        Items.Proper (exchange.served.on hall.world.store) item.index := fun item there =>
      guards.2.1.proper conducts faithful (balanced.proper item there)
    exact ⟨.scanning n _, balanced.run answers (.serve conducts) pursues (.inr (.inr rfl)) alone
      balanced.manned.busy (worker ▸ mans) (kinds worker) proper unfiled
      (Scanned.serve guards conducts faithful unfiled) (fun present => absurd mans present) orderly⟩
  | release =>
    obtain rfl := Watch.eq_scanning place ⟨nofun, nofun⟩
    exact guards.elim
  | @hire tried answer =>
    obtain rfl := Watch.eq_scanning place ⟨nofun, nofun⟩
    obtain ⟨rfl, started⟩ := answers.started mans
    have labours : hall.world.newWorker.Labours skip .resting :=
      balanced.manned.skips ▸ ⟨Queue.abides_working _ (), Queue.abides_working _⟩
    have handed := (balanced.accounted.early mans).2
    have hires : Runs skip (.scanning ⟨[], tried⟩) ⟨.startWorker, true⟩ .leaving := .hire
    refine ⟨.manned .resting, balanced.run answers hires pursues (.inr (.inl rfl)) alone
      balanced.manned.busy ⟨_, started, labours⟩ ?_ balanced.proper unfiled ?_
      (fun present => absurd mans present) orderly⟩
    · rw [started, show hall.world.worker = .absent from mans]
      exact ⟨nofun, ⟨nofun, nofun⟩⟩
    · have kept : Watch.Guards hall.world.store hall.log hall.received hall.hand (.manned .resting) :=
        ⟨handed, guards.over.mono fun _ => False.elim⟩
      exact kept.keep rfl

/-- The turn of a visitor who runs the queue. -/
theorem Balanced.turn_running {chance : Chance} (balanced : hall.Balanced capacity skip watch)
    (steady : chance.failure = none) {task : Task Queue.RunStage (Except QueueError Unit)}
    (found : hall.visits[n]? = some (.running task)) :
    ∃ watch', (hall.advance n (hall.world.act chance task) .running .ran).Balanced capacity skip
      watch' := by
  obtain ⟨holder, orderly⟩ := balanced.orderly
  have orderly' : (hall.advance n (hall.world.act chance task) .running .ran).Orderly holder :=
    orderly.turn_tame chance found (fun _ _ _ => Iff.rfl) (fun _ _ _ => Iff.rfl)
      ⟨fun _ => rfl, fun _ => rfl⟩
  have tame := (orderly.visits n _ found).1
  obtain ⟨running, pursues, place⟩ := balanced.manned.runs n task found
  have mans := balanced.manned.worker
  have acts := hall.world.acts chance task
  generalize hall.world.act chance task = act at acts orderly' ⊢
  cases acts with
  | finished ends =>
    have ended := pursues.program
    rw [ends] at ended
    obtain rfl | ⟨tried, rfl⟩ := ended
    · exact ⟨watch, balanced.leave ⟨holder, orderly'⟩ (fun _ absent => by cases absent)
        fun _ absent => by cases absent⟩
    · obtain rfl := Watch.eq_scanning place ⟨nofun, nofun⟩
      refine ⟨.unmanned, balanced.still ⟨holder, orderly'⟩ rfl rfl rfl rfl rfl rfl rfl ?_
        ⟨(balanced.accounted.early mans).2, Scanned.over balanced.guards⟩⟩
      exact balanced.manned.visit rfl (fun _ absent => by cases absent) (fun _ absent => by cases absent)
        (fun _ _ other same => absurd same (Watch.scanning_ne other)) balanced.manned.busy rfl mans
  | @began state again =>
    have ended := pursues.program
    rw [again] at ended
    cases state with
    | claiming => exact ended.elim
    | resuming resume =>
      have scanning : watch = .scanning n running := by
        refine Watch.eq_scanning place ?_
        obtain rfl | ⟨index, stage, rfl, _⟩ := ended <;> exact ⟨nofun, nofun⟩
      subst scanning
      refine ⟨.scanning n (.scanning resume), balanced.still ⟨holder, orderly'⟩ rfl rfl rfl rfl rfl rfl
        rfl ?_ (Scanned.goOn balanced.guards ended)⟩
      refine balanced.manned.visit rfl (fun task' same => ?_) (fun _ absent => by cases absent)
        (fun _ _ other same => absurd same (Watch.scanning_ne other)) balanced.manned.busy rfl mans
      cases same
      exact ⟨.scanning resume, ⟨pursues.round resume, pursues.round⟩, .inr (.inr rfl)⟩
  | @asked asked next answer after asks answers =>
    have abides := pursues.program
    rw [asks] at abides
    obtain ⟨running', runs, later⟩ := abides hall.world.store answer answers.possible
    obtain ⟨_, unfiled, _⟩ := tame.next asks answers.possible (.visitor n) hall.world.clock
    exact balanced.asks_running steady answers place runs ⟨later, pursues.round⟩ unfiled
      ⟨holder, orderly'⟩
  | waits => exact ⟨watch, balanced⟩

/-- The worker makes a request. -/
theorem Balanced.work {chance : Chance} {since : Nat} {exchange : Service.Exchange} {after : World}
    {working working' : Working} {task task' : Task Unit Unit}
    (balanced : hall.Balanced capacity skip (.manned working))
    (live : hall.world.worker = .live task)
    (answers : World.Answers chance since hall.world exchange after)
    (works : Works skip working exchange working') (labours : task'.Labours skip working')
    (proper : ∀ item ∈ filed hall.log, Items.Proper (exchange.on hall.world.store) item.index)
    (unfiled : Line.filed? ⟨.worker hall.hand, hall.world, exchange⟩ = none)
    (guards : Watch.Guards (exchange.on hall.world.store)
      (hall.log ++ [⟨.worker hall.hand, hall.world, exchange⟩])
      (hall.received ++ (taken? exchange).toList) ((taken? exchange).or hall.hand) (.manned working'))
    (rightful : Rightful skip hall.log ⟨.worker hall.hand, hall.world, exchange⟩) :
    let later := hall.labour (.asked exchange after task')
    (∃ holder, later.Orderly holder) → later.Balanced capacity skip (.manned working') := by
  intro later orderly
  have unposted : ∀ index, exchange ≠ ⟨.announce index, .ok ()⟩ ∧
      exchange.runs hall.world.running = hall.world.running := by
    cases works <;> exact fun index => ⟨fun same => (by cases congrArg Service.Exchange.request same), rfl⟩
  have store : later.world.store = exchange.on hall.world.store := answers.store
  have manned := balanced.manned
  refine ⟨orderly, ?_, ?_, fun item there => ?_, store ▸ guards,
    calls_append balanced.calls fun _ => rightful⟩
  · refine balanced.accounted.asked (.worker hall.hand) exchange rfl answers.lane rfl rfl rfl
      (fun index same => absurd same (unposted index).1) (fun index taken => ?_) ?_
    · obtain rfl := taken?_eq_some taken
      exact ⟨by rw [live]; nofun, answers.taken⟩
    · rw [live]
      exact ⟨nofun, ⟨nofun, nofun⟩⟩
  · exact ⟨manned.runs_aside (fun _ _ absent => by cases absent) _, manned.closes,
      (answers.running.trans (unposted 0).2).trans manned.busy, answers.options ▸ manned.skips,
      ⟨task', rfl, labours⟩⟩
  · replace there : item ∈ filed (hall.log ++ [⟨.worker hall.hand, hall.world, exchange⟩]) := there
    rw [filed_append, unfiled, Option.toList_none, List.append_nil] at there
    exact store ▸ proper item there

/-- What the worker takes from the lane is in its charge from then on. -/
theorem take_kept {store : Store} {log : List Line} {received : List Int64} {charge : Item → Prop}
    {index : Int64} (kept : Kept store log received charge) (idle : ∀ item, ¬ charge item) :
    Kept store log (received ++ [index]) fun item => some index = some item.index := by
  intro item has live
  have unserved := (kept item has live).resolve_right (idle item)
  by_cases same : item.index = index
  · exact .inr (congrArg some same.symm)
  · refine .inl ⟨unserved.1, ?_⟩
    rw [List.mem_append, List.mem_singleton, not_or]
    exact ⟨unserved.2, same⟩

theorem Balanced.proper_hand {working : Working} {index : Int64}
    (balanced : hall.Balanced capacity skip (.manned working)) (hand : hall.hand = some index) :
    Items.Proper hall.world.store index := by
  obtain ⟨item, there, rfl⟩ := balanced.received_filed (balanced.accounted.hand index hand)
  exact balanced.proper item there

/-- The request of the worker. -/
theorem Balanced.asks_working {chance : Chance} {since : Nat} {exchange : Service.Exchange}
    {after : World} {working working' : Working} {task task' : Task Unit Unit}
    (balanced : hall.Balanced capacity skip (.manned working)) (steady : chance.failure = none)
    (live : hall.world.worker = .live task)
    (answers : World.Answers chance since hall.world exchange after)
    (works : Works skip working exchange working') (labours : task'.Labours skip working')
    (unfiled : Line.filed? ⟨.worker hall.hand, hall.world, exchange⟩ = none) :
    let later := hall.labour (.asked exchange after task')
    (∃ holder, later.Orderly holder) → later.Balanced capacity skip (.manned working') := by
  intro later orderly
  have faithful := answers.faithful steady
  obtain ⟨handled, kept⟩ := balanced.guards
  cases works with
  | @receive answer =>
    have idle : ∀ item : Item, ¬ hall.hand = some item.index := by
      rw [show hall.hand = none from handled]
      intro _ absent
      cases absent
    have guards : Watch.Guards hall.world.store hall.log (hall.received ++ answer.toList)
        (answer.or hall.hand) (.manned (.received answer)) := by
      cases answer with
      | none =>
        rw [Option.toList_none, List.append_nil, Option.none_or]
        exact ⟨handled, kept⟩
      | some index => exact ⟨rfl, take_kept kept idle⟩
    exact balanced.work live answers .receive labours balanced.proper unfiled (guards.keep rfl)
      (rightful nofun) orderly
  | @get index answer =>
    obtain ⟨item, held, same⟩ := balanced.proper_hand handled
    cases faithful
    have fetched : Working.fetched index (.ok (hall.world.store.get? (Items.key index))) =
        .serving index (.held item none) := by
      subst same
      unfold Working.fetched Items.decode
      rw [held.2]
      simp only [Items.decode_encode held.1]
    have guards : Watch.Guards hall.world.store hall.log (hall.received ++ []) hall.hand
        (.manned (.fetched index (.ok (hall.world.store.get? (Items.key index))))) := by
      rw [fetched, List.append_nil]
      refine ⟨⟨handled, ?_, nofun⟩, kept⟩
      subst same
      exact .first held.1 (.inl ⟨_, held.2, Items.decode_encode held.1⟩)
    exact balanced.work live answers .get labours balanced.proper unfiled (guards.keep rfl)
      (rightful nofun) orderly
  | @serve index stage exchange stage' conducts =>
    obtain ⟨hand, serving, working⟩ := handled
    have proper := serving.proper conducts faithful (balanced.proper_hand hand)
    have guards : Watch.Guards (exchange.on hall.world.store)
        (hall.log ++ [⟨.worker hall.hand, hall.world, exchange.served⟩]) (hall.received ++ []) hall.hand
        (.manned (.serving index stage')) := by
      rw [List.append_nil]
      refine ⟨⟨hand, serving.keeps conducts faithful, fun idle => ?_⟩,
        kept.serve serving conducts faithful unfiled (fun item _ same => ?_) fun _ _ charge => charge⟩
      · subst idle
        cases (serving.lost conducts faithful).symm.trans proper.contains
      · rw [hand, same]
    refine balanced.work live answers (.serve conducts) labours
      (fun item there => serving.proper conducts faithful (balanced.proper item there)) unfiled guards
      (fun request answer same => ?_) orderly
    obtain ⟨asked, reply⟩ := exchange
    cases same
    obtain ⟨posted, _, taken⟩ := balanced.accounted.received (balanced.accounted.hand index hand)
    obtain ⟨item, inHand⟩ := conducts.hand
    exact ⟨index, stage, item, stage', congrArg Caller.worker hand, posted, taken, inHand,
      (serving.hand item inHand).1, conducts⟩

/-- The turn of the worker. -/
theorem Balanced.labour {chance : Chance} (balanced : hall.Balanced capacity skip watch)
    (steady : chance.failure = none) {task : Task Unit Unit} (live : hall.world.worker = .live task) :
    ∃ watch', (hall.labour (hall.world.act chance task)).Balanced capacity skip watch' := by
  obtain ⟨holder, orderly⟩ := balanced.orderly
  have orderly' := orderly.labour chance live
  have tame := orderly.worker task live
  have mans := balanced.manned.worker
  cases watch with
  | idle | scanning | unmanned | gone => cases live.symm.trans mans
  | manned working =>
    have manned := balanced.manned
    obtain ⟨task', same, labours⟩ := mans
    cases live.symm.trans same
    obtain ⟨handled, kept⟩ := balanced.guards
    have acts := hall.world.acts chance task
    generalize hall.world.act chance task = act at acts orderly' ⊢
    cases acts with
    | finished ends =>
      have ended := labours.program
      rw [ends] at ended
      cases ended
      refine ⟨.gone, ⟨holder, orderly'⟩, balanced.accounted.ends, ?_, balanced.proper, ⟨rfl, ?_⟩,
        balanced.calls⟩
      · exact ⟨manned.runs_aside (fun _ _ absent => by cases absent) _, manned.closes, manned.busy,
          manned.skips, rfl⟩
      · refine kept.mono fun item charge => ?_
        cases (show hall.hand = none from handled).symm.trans charge
    | @began state again =>
      have ended := labours.program
      rw [again] at ended
      obtain rfl | ⟨index, stage, rfl, ceased⟩ := ended
      · exact handled.elim
      · obtain ⟨hand, serving, working⟩ := handled
        refine ⟨.manned .resting, ⟨holder, orderly'⟩, balanced.accounted.rests live, ?_,
          balanced.proper, ⟨rfl, fun item has ready => ?_⟩, balanced.calls⟩
        · exact ⟨manned.runs_aside (fun _ _ absent => by cases absent) _, manned.closes, manned.busy,
            manned.skips, _, rfl, labours.round (), labours.round⟩
        · refine (kept item has ready).imp_right fun charge => ?_
          have same := Option.some.inj (charge.symm.trans hand)
          cases ready.symm.trans (serving.rests ceased working has same)
    | @asked asked next answer after asks answers =>
      have abides := labours.program
      rw [asks] at abides
      obtain ⟨working', works, later⟩ := abides hall.world.store answer answers.possible
      obtain ⟨_, unfiled, _⟩ := tame.next asks answers.possible (.worker hall.hand) hall.world.clock
      exact ⟨_, balanced.asks_working steady live answers works ⟨later, labours.round⟩ unfiled
        ⟨holder, orderly'⟩⟩
    | waits => exact ⟨.manned working, balanced⟩

/-- A visitor comes in. -/
theorem Balanced.enter (balanced : hall.Balanced capacity skip watch) {visit : Visit}
    (orderly : ∃ holder, (hall.enter visit).Orderly holder)
    (runs : ∀ task, visit = .running task → task.Pursues skip .claiming)
    (closes : ∀ task, visit = .closing task → task.program.Abides Closes (fun _ _ => True) ()) :
    (hall.enter visit).Balanced capacity skip watch := by
  refine balanced.still orderly rfl rfl rfl rfl rfl rfl rfl ?_ balanced.guards
  refine ⟨fun m task found => ?_, fun m task found => ?_, balanced.manned.busy, balanced.manned.skips,
    balanced.manned.worker⟩
  · rcases Orderly.enter_eq found with ⟨_, same⟩ | found
    · exact ⟨.claiming, runs task same.symm, .inl rfl⟩
    · exact balanced.manned.runs m task found
  · rcases Orderly.enter_eq found with ⟨_, same⟩ | found
    · exact closes task same.symm
    · exact balanced.manned.closes m task found

/-- Whatever happens next, a hall stays balanced as long as the store does not fail. -/
theorem Balanced.step (balanced : hall.Balanced capacity skip watch) {event : Event}
    (steady : event.Steady) : ∃ watch', (hall.step event).Balanced capacity skip watch' := by
  obtain ⟨holder, orderly⟩ := balanced.orderly
  have orderly' := orderly_step orderly event
  cases event with
  | add request fits =>
    exact ⟨watch, balanced.enter orderly' (fun _ absent => by cases absent) fun _ absent => by cases absent⟩
  | run =>
    refine ⟨watch, balanced.enter orderly' (fun task same => ?_) fun _ absent => by cases absent⟩
    cases same
    exact balanced.manned.skips ▸ Task.pursues_ofRounds _ _
  | close =>
    refine ⟨watch, balanced.enter orderly' (fun _ absent => by cases absent) fun task same => ?_⟩
    cases same
    exact Queue.abides_closing.bind fun _ _ _ => trivial
  | turn n chance =>
    simp only [Hall.step]
    split
    · exact ⟨watch, balanced.turn_adding chance ‹_›⟩
    · exact balanced.turn_running steady ‹_›
    · exact ⟨watch, balanced.turn_closing chance ‹_›⟩
    all_goals exact ⟨watch, balanced⟩
  | work chance =>
    simp only [Hall.step]
    split
    · exact balanced.labour steady ‹_›
    all_goals exact ⟨watch, balanced⟩
  | wait duration =>
    have manned := balanced.manned
    exact ⟨watch, balanced.still orderly' rfl rfl rfl rfl rfl rfl rfl
      ⟨manned.runs, manned.closes, manned.busy, manned.skips, manned.worker⟩ balanced.guards⟩

/-- At any time the hall of a queue that was just built is balanced, as long as the store does not
fail. -/
theorem balanced_run (clock : Nat) (backend : Backend) (secrets : Nat → Secret) (drawn : Nat)
    (options : Queue.Options) {events : List Event} (steady : ∀ event ∈ events, event.Steady) :
    ∃ watch, (Hall.run (.build clock backend secrets drawn options) events).Balanced
      (max 1 options.laneCapacity) options.skipProcessing watch := by
  induction events using List.reverseRecOn with
  | nil =>
    refine ⟨.idle, ⟨none, orderly_start rfl rfl⟩, ?_, ?_, fun _ absent => ?_, trivial, ?_⟩
    · exact ⟨rfl, List.nodup_nil, Nat.zero_le _, rfl, fun _ => ⟨rfl, rfl⟩, fun _ => rfl,
        fun stopped => (by cases stopped), fun _ absent => by cases absent⟩
    · exact ⟨fun _ _ absent => (by cases absent), fun _ _ absent => (by cases absent), rfl, rfl, rfl⟩
    · cases absent
    · intro before line start
      cases (List.append_eq_nil_iff.1 (List.prefix_nil.1 start)).2
  | append_singleton events event ih =>
    obtain ⟨watch, balanced⟩ := ih fun other there => steady other (List.mem_append_left _ there)
    rw [run_concat]
    exact balanced.step (steady event (List.mem_append_right _ List.mem_cons_self))

end Hall

end Registrar
