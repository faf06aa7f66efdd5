import Registrar.Proofs.Chronicle
import Registrar.World

/-!
Halls: one queue with many calls at once. Requests are added, the queue is run and closed by any number
of visitors, each of whom makes one request after the other, and so does the worker once it is started.
Whose turn it is, how the clock goes, whether the store fails, and what the gateway answers, is left
open; what a `World` performs is one way in which it may go (`Hall.covers_calls`). `Program.Abides` says
of a program that its requests take a mark from one move to the next, as `Heeds` does for work on items,
and `Heeds.abides` carries the one over to the other.
-/

namespace Registrar

/-- A request of a call, and its answer. -/
structure Service.Exchange where
  request : Service.Request
  answer : request.Answer

/-- What becomes of the next request of a call, whatever it is. -/
structure Chance extends Fortune where
  /-- What a draw of a secret comes to. -/
  secret : Except String Secret

namespace World

variable {σ α : Type}

def store (world : World) : Store := world.backend.books.store.store

def withStore (world : World) (store : Store) : World :=
  { world with
    backend := { world.backend with
      books := { world.backend.books with store := { world.backend.books.store with store } } } }

@[simp] theorem store_withStore (world : World) (store : Store) :
    (world.withStore store).store = store := rfl

/-- What a request that was made at `since` is answered, unless it has to wait, and the world then. -/
def answer? (world : World) (chance : Chance) (since : Nat) :
    (request : Service.Request) → Option (request.Answer × World)
  | .work request =>
    some ((chance.serve world.store request).1,
      world.withStore (chance.serve world.store request).2)
  | .drawSecret => some (chance.secret, world)
  | request =>
    match world.poll since request with
    | .answered answer _ after => some (answer, after)
    | .waits | .brokeOff _ => none

/-- The answers that a request may have, with the world after each. -/
inductive Answers (chance : Chance) (since : Nat) (world : World) : Service.Exchange → World → Prop where
  | work {request : Work.Request} :
      Answers chance since world ⟨.work request, (chance.serve world.store request).1⟩
        (world.withStore (chance.serve world.store request).2)
  | draw : Answers chance since world ⟨.drawSecret, chance.secret⟩ world
  | lock : world.locked = false →
      Answers chance since world ⟨.lock, ()⟩ { world with locked := true }
  | unlock : Answers chance since world ⟨.unlock, ()⟩ { world with locked := false }
  | refuse {index} : world.lane.closed = true →
      Answers chance since world ⟨.announce index, .error .laneClosed⟩ world
  | push {index} : world.lane.closed = false → world.lane.hasRoom = true →
      Answers chance since world ⟨.announce index, .ok ()⟩
        { world with lane := world.lane.push index }
  | overflow {index} : world.lane.closed = false →
      since + world.options.enqueueTimeout ≤ world.clock →
      Answers chance since world ⟨.announce index, .error (.laneFull index)⟩ world
  | dismiss : world.told = true → Answers chance since world ⟨.receive, none⟩ world
  | take {index lane} : world.lane.pop = some (index, lane) →
      Answers chance since world ⟨.receive, some index⟩ { world with lane }
  | claim : Answers chance since world ⟨.claimRun, world.running⟩ { world with running := true }
  | release : Answers chance since world ⟨.releaseRun, ()⟩ { world with running := false }
  | hire : world.worker = .absent →
      Answers chance since world ⟨.startWorker, true⟩
        { world with worker := .live world.newWorker, workerHeld := true, told := false }
  | keep : world.worker ≠ .absent → Answers chance since world ⟨.startWorker, false⟩ world
  | signal : Answers chance since world ⟨.signalStop, ()⟩ { world with told := true }
  | lead : Answers chance since world ⟨.takeWorker, world.workerHeld⟩ { world with workerHeld := false }
  | outlast {limit} : world.worker.isLive = false →
      Answers chance since world ⟨.awaitWorker limit, true⟩ world
  | giveUp {limit} : limit.any (fun limit => since + limit ≤ world.clock) = true →
      Answers chance since world ⟨.awaitWorker limit, false⟩ world
  | pause {duration} : Answers chance since world ⟨.pause duration, ()⟩ world

theorem answers_of_answer? {world after : World} {chance : Chance} {since : Nat}
    {request : Service.Request} {answer : request.Answer}
    (h : world.answer? chance since request = some (answer, after)) :
    Answers chance since world ⟨request, answer⟩ after := by
  cases request with
  | work | drawSecret => cases h; constructor
  | unlock | claimRun | releaseRun | signalStop | takeWorker => cases h; constructor
  | lock =>
    simp only [answer?, poll] at h
    cases locked : world.locked with
    | true => simp [locked] at h
    | false =>
      simp only [locked] at h
      cases h
      exact .lock locked
  | announce index =>
    simp only [answer?, poll] at h
    cases closed : world.lane.closed with
    | true =>
      simp only [closed] at h
      cases h
      exact .refuse closed
    | false =>
      cases room : world.lane.hasRoom with
      | true =>
        simp only [closed, room] at h
        cases h
        exact .push closed room
      | false =>
        by_cases late : since + world.options.enqueueTimeout ≤ world.clock
        · simp only [closed, room, late] at h
          cases h
          exact .overflow closed late
        · simp [closed, room, late] at h
  | receive =>
    simp only [answer?, poll] at h
    cases told : world.told with
    | true =>
      simp only [told] at h
      cases h
      exact .dismiss told
    | false =>
      have untold : ¬ world.told = true := by simp [told]
      rw [if_neg untold] at h
      cases popped : world.lane.pop with
      | none =>
        rw [popped] at h
        cases h
      | some next =>
        obtain ⟨index, lane⟩ := next
        rw [popped] at h
        cases h
        exact .take popped
  | startWorker =>
    simp only [answer?, poll] at h
    cases worker : world.worker with
    | absent =>
      simp only [worker] at h
      cases h
      exact .hire worker
    | live task | stopped =>
      simp only [worker] at h
      cases h
      exact .keep (by rw [worker]; nofun)
  | awaitWorker limit =>
    simp only [answer?, poll] at h
    cases live : world.worker.isLive with
    | false =>
      simp only [live] at h
      cases h
      exact .outlast live
    | true =>
      cases late : limit.any fun limit => decide (since + limit ≤ world.clock) with
      | true =>
        simp only [live, late] at h
        cases h
        exact .giveUp late
      | false => simp [live, late] at h
  | pause duration =>
    simp only [answer?, poll] at h
    by_cases late : since + Sleep.lasting duration ≤ world.clock
    · simp only [late] at h
      cases h
      exact .pause
    · simp [late] at h

/-- What one step of a task comes to. -/
inductive Act (σ α : Type) where
  | finished (value : α)
  | began (task : Task σ α)
  | asked (exchange : Service.Exchange) (after : World) (task : Task σ α)
  | waits

def act (world : World) (chance : Chance) (task : Task σ α) : Act σ α :=
  match task.program with
  | .done (.finished value) => .finished value
  | .done (.again state) => .began { task with since := world.clock, program := task.round state }
  | .ask request next =>
    match world.answer? chance task.since request with
    | none => .waits
    | some (answer, after) =>
      .asked ⟨request, answer⟩ after { task with since := world.clock, program := next answer }

/-- The steps that a task may take. -/
inductive Acts (chance : Chance) (world : World) (task : Task σ α) : Act σ α → Prop where
  | finished {value} :
      task.program = .done (.finished value) → Acts chance world task (.finished value)
  | began {state} : task.program = .done (.again state) →
      Acts chance world task
        (.began { task with since := world.clock, program := task.round state })
  | asked {request next answer after} : task.program = .ask request next →
      Answers chance task.since world ⟨request, answer⟩ after →
      Acts chance world task
        (.asked ⟨request, answer⟩ after { task with since := world.clock, program := next answer })
  | waits : Acts chance world task .waits

theorem acts (chance : Chance) (world : World) (task : Task σ α) :
    Acts chance world task (world.act chance task) := by
  unfold act
  split
  · exact .finished ‹_›
  · exact .began ‹_›
  · rename_i request next asks
    cases answered : world.answer? chance task.since request with
    | none => exact .waits
    | some reply => exact .asked asks (answers_of_answer? answered)

end World

/-- A call of a queue, or what it has answered. -/
inductive Visit where
  | adding (request : ItemRequest) (task : Task Empty (Except QueueError Int64))
  | added (request : ItemRequest) (answer : Except QueueError Int64)
  | running (task : Task Queue.RunStage (Except QueueError Unit))
  | ran (answer : Except QueueError Unit)
  | closing (task : Task Empty (Except QueueError Unit))
  | closed (answer : Except QueueError Unit)

namespace Hall

/-- Who makes a request: a visitor, or the worker, which may be at an index. -/
inductive Caller where
  | visitor (n : Nat)
  | worker (hand : Option Int64)
  deriving DecidableEq

/-- A request that was answered, with the world as it was before. -/
structure Line where
  caller : Caller
  before : World
  exchange : Service.Exchange

/-- What may happen next. -/
inductive Event where
  | add (request : ItemRequest) (fits : request.Fits)
  | run
  | close
  /-- The turn of a visitor. -/
  | turn (n : Nat) (chance : Chance)
  /-- The turn of the worker. -/
  | work (chance : Chance)
  | wait (duration : Nat)

/-- The store does not fail in what happens next. -/
def Event.Steady : Event → Prop
  | .turn _ chance | .work chance => chance.failure = none
  | .add _ _ | .run | .close | .wait _ => True

instance : DecidablePred Event.Steady
  | .turn _ chance | .work chance => inferInstanceAs (Decidable (chance.failure = none))
  | .add _ _ | .run | .close | .wait _ => isTrue trivial

end Hall

/-- A queue with its visitors. -/
structure Hall where
  world : World
  visits : List Visit
  /-- The index that the worker is at. -/
  hand : Option Int64
  /-- The indices that the worker has taken from the lane. -/
  received : List Int64
  /-- What was on the lane when the worker stopped. -/
  left : List Int64
  log : List Hall.Line

namespace Hall

variable {σ α : Type}

/-- A hall without visitors. -/
def start (world : World) : Hall := ⟨world, [], none, [], [], []⟩

def enter (hall : Hall) (visit : Visit) : Hall := { hall with visits := hall.visits ++ [visit] }

/-- The hall after the turn of a visitor. -/
def advance (hall : Hall) (n : Nat) (act : World.Act σ α) (goOn : Task σ α → Visit) (leave : α → Visit) :
    Hall :=
  match act with
  | .finished value => { hall with visits := hall.visits.set n (leave value) }
  | .began task => { hall with visits := hall.visits.set n (goOn task) }
  | .asked exchange after task =>
    { hall with
      world := after, visits := hall.visits.set n (goOn task)
      log := hall.log ++ [⟨.visitor n, hall.world, exchange⟩] }
  | .waits => hall

/-- The index that the worker takes from the lane. -/
def taken? : Service.Exchange → Option Int64
  | ⟨.receive, answer⟩ => answer
  | _ => none

/-- The hall after the turn of the worker. -/
def labour (hall : Hall) : World.Act Unit Unit → Hall
  | .finished () =>
    { hall with
      world := hall.world.endWorker, hand := none, left := hall.left ++ hall.world.lane.waiting }
  | .began task => { hall with world := { hall.world with worker := .live task }, hand := none }
  | .asked exchange after task =>
    { hall with
      world := { after with worker := .live task }, hand := (taken? exchange).or hall.hand
      received := hall.received ++ (taken? exchange).toList
      log := hall.log ++ [⟨.worker hall.hand, hall.world, exchange⟩] }
  | .waits => hall

def step (hall : Hall) : Event → Hall
  | .add request _ =>
    hall.enter (.adding request (.once hall.world.clock (Queue.add request).run))
  | .run =>
    hall.enter
      (.running (.ofRounds hall.world.clock (Queue.runRound hall.world.options) .claiming))
  | .close => hall.enter (.closing (.once hall.world.clock Queue.close.run))
  | .turn n chance =>
    match hall.visits[n]? with
    | some (.adding request task) =>
      hall.advance n (hall.world.act chance task) (.adding request) (.added request)
    | some (.running task) => hall.advance n (hall.world.act chance task) .running .ran
    | some (.closing task) => hall.advance n (hall.world.act chance task) .closing .closed
    | some (.added _ _) | some (.ran _) | some (.closed _) | none => hall
  | .work chance =>
    match hall.world.worker with
    | .live task => hall.labour (hall.world.act chance task)
    | .absent | .stopped => hall
  | .wait duration =>
    { hall with world := { hall.world with clock := hall.world.clock + duration } }

/-- The hall after some events. -/
def run (world : World) (events : List Event) : Hall := events.foldl step (start world)

end Hall

/-- What a store may answer to the request of an exchange: what it has, or an error. -/
def Service.Exchange.Possible (store : Store) : Service.Exchange → Prop
  | ⟨.work (.store request), answer⟩ =>
    answer = .ok (store.serve request).1 ∨ ∃ error, answer = .error error
  | _ => True

/-- The store after an exchange. -/
def Service.Exchange.on : Service.Exchange → Store → Store
  | ⟨.work request, answer⟩, store => Registrar.Exchange.on ⟨request, answer⟩ store
  | _, store => store

/-- Whether an index is being assigned after an exchange. -/
def Service.Exchange.locks (locked : Bool) : Service.Exchange → Bool
  | ⟨.lock, _⟩ => true
  | ⟨.unlock, _⟩ => false
  | _ => locked

namespace World.Answers

variable {chance : Chance} {since : Nat} {world after : World} {exchange : Service.Exchange}

theorem possible (answers : Answers chance since world exchange after) :
    exchange.Possible world.store := by
  cases answers with
  | @work request =>
    cases request with
    | now | gateway => trivial
    | store request =>
      unfold Fortune.serve
      cases chance.failure with
      | none => exact .inl rfl
      | some error => exact .inr ⟨error, rfl⟩
  | _ => trivial

theorem store (answers : Answers chance since world exchange after) :
    after.store = exchange.on world.store := by
  cases answers with
  | work => exact chance.serve_on world.store _
  | _ => rfl

theorem locked (answers : Answers chance since world exchange after) :
    after.locked = exchange.locks world.locked := by
  cases answers <;> rfl

end World.Answers

namespace Program

variable {σ α β : Type}

/-- Every request takes the mark one move along, and the program finishes with a value and a mark that
fit. -/
def Abides (move : σ → Service.Exchange → σ → Prop) (fits : α → σ → Prop) : Program Service α → σ → Prop
  | .done value, mark => fits value mark
  | .ask request next, mark => ∀ store answer, Service.Exchange.Possible store ⟨request, answer⟩ →
      ∃ mark', move mark ⟨request, answer⟩ mark' ∧ (next answer).Abides move fits mark'

variable {move : σ → Service.Exchange → σ → Prop} {fits : β → σ → Prop} {mark : σ}

theorem Abides.bind {program : Program Service α} {f : α → Program Service β} {mid : α → σ → Prop}
    (first : program.Abides move mid mark)
    (later : ∀ value mark, mid value mark → (f value).Abides move fits mark) :
    (program.bind f).Abides move fits mark := by
  induction program generalizing mark with
  | done value => exact later value mark first
  | ask request next ih =>
    intro store answer possible
    obtain ⟨mark', moved, rest⟩ := first store answer possible
    exact ⟨mark', moved, ih answer rest⟩

end Program

/-- An exchange in the work on an item, as one of a call. -/
def Exchange.served (exchange : Exchange) : Service.Exchange := ⟨.work exchange.request, exchange.answer⟩

/-- Work on an item that keeps to the conduct of its steps does so as part of a call. -/
theorem Program.Heeds.abides {σ α β : Type} {skip : Bool} {program : Program Work α}
    {mid : α → Stage → Prop} {stage : Stage} (heeds : program.Heeds .wild (Conduct skip) mid stage)
    {f : α → Program Service β} {move : σ → Service.Exchange → σ → Prop} {fits : β → σ → Prop}
    (mark : Stage → σ)
    (moves : ∀ stage exchange stage', Conducts skip stage exchange stage' →
      move (mark stage) exchange.served (mark stage'))
    (later : ∀ value stage, mid value stage → (f value).Abides move fits (mark stage)) :
    ((Service.work program).bind f).Abides move fits (mark stage) := by
  induction program generalizing stage with
  | done value => exact later value stage heeds
  | ask request next ih =>
    intro store answer possible
    have replies : ∃ g', Surroundings.wild.Replies ⟨store, .fresh 0⟩ request answer g' := by
      cases request with
      | now | gateway => exact ⟨_, rfl⟩
      | store request =>
        rcases possible with told | failed
        · exact ⟨_, .inl ⟨told, rfl⟩⟩
        · exact ⟨_, .inr ⟨trivial, failed, rfl⟩⟩
    obtain ⟨g', replies⟩ := replies
    obtain ⟨stage', conducts, rest⟩ := heeds _ answer g' replies
    exact ⟨mark stage', moves _ _ _ conducts, ih answer rest⟩

end Registrar
