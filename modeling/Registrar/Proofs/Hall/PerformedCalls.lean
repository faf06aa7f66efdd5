import Registrar.Proofs.Hall
import Registrar.Proofs.Scene.Ticks

/-!
What is performed is what may happen in a hall. A world that is performing a call moves as a hall does in
which this call has its turns, the worker its own, and the clock goes on meanwhile; `Covers` relates the
two, and the hall may be ahead in nothing but how long its requests have been waiting. So what holds at any
time in every hall holds of the calls of a queue as they are performed, one after the other.
-/

namespace Registrar

/-- Another world may answer a task in what it asks for next, and has made it wait no longer. -/
structure Task.Covers {σ α : Type} (task real : Task σ α) : Prop where
  program : task.program = real.program
  round : task.round = real.round
  since : task.since ≤ real.since

def Worker.Covers : Worker → Worker → Prop
  | .absent, .absent | .stopped, .stopped => True
  | .live task, .live real => task.Covers real
  | _, _ => False

/-- Two worlds agree in everything but the backend, of which they share what is stored, and the secrets
that are still to be drawn. -/
inductive World.Covers (world : World) : World → Prop where
  | mk {backend secrets drawn worker} : backend.books.store.store = world.store →
      world.worker.Covers worker → Covers world { world with backend, secrets, drawn, worker }

theorem Task.Covers.refl {σ α : Type} (task : Task σ α) : task.Covers task := ⟨rfl, rfl, Nat.le_refl _⟩

theorem Worker.Covers.refl (worker : Worker) : worker.Covers worker := by
  cases worker with
  | live task => exact Task.Covers.refl task
  | absent | stopped => trivial

theorem World.Covers.refl (world : World) : world.Covers world := .mk rfl (.refl _)

theorem Worker.Covers.isLive {worker real : Worker} (covers : worker.Covers real) :
    worker.isLive = real.isLive := by
  cases worker <;> cases real <;> first | rfl | exact covers.elim

/-- What becomes of a request where nothing is left to fortune. -/
def Fortune.plain : Fortune := ⟨fun _ => .error (.connection ""), none, 0⟩

def Chance.plain : Chance := ⟨.plain, .error ""⟩

/-- Whether the answer to a request is left to fortune. -/
def Service.Request.isOpen : Service.Request → Bool
  | .work _ | .drawSecret => true
  | _ => false

section

variable {faults : Faults} {backend : Backend}

/-- A backend that does not break off answers by some fortune. -/
theorem Backend.serve_fortune (within : backend.Within faults) (whole : ¬ faults.breaks)
    (request : Work.Request) :
    ∃ (fortune : Fortune) (reply : Gateway.Reply request.Answer),
      (¬ faults.store → fortune.failure = none) ∧ (backend.serve request).1 = some reply ∧
      (backend.serve request).2.Within faults ∧
      fortune.serve backend.books.store.store request =
        (reply.answer, (backend.serve request).2.books.store.store) := by
  obtain ⟨kept, -, given, broken⟩ := serve_replies within request
  cases served : (backend.serve request).1 with
  | none => exact absurd (broken served).1 whole
  | some reply =>
    replace given := given reply served
    cases request with
    | now =>
      have same := congrArg Ground.store given
      exact ⟨{ Fortune.plain with now := reply.answer }, reply, fun _ => rfl, rfl, kept,
        Prod.ext rfl same.symm⟩
    | store request =>
      rcases given with ⟨answer, ground⟩ | ⟨fails, ⟨error, answer⟩, ground⟩
      · exact ⟨.plain, reply, fun _ => rfl, rfl, kept,
          Prod.ext answer.symm (congrArg Ground.store ground).symm⟩
      · exact ⟨{ Fortune.plain with failure := some error }, reply, fun steady => absurd fails steady, rfl,
          kept, Prod.ext answer.symm (congrArg Ground.store ground).symm⟩
    | gateway request =>
      refine ⟨{ Fortune.plain with gateway := Function.update Fortune.plain.gateway request reply.answer },
        reply, fun _ => rfl, rfl, kept, Prod.ext (Function.update_self ..) ?_⟩
      rcases Ledger.Profile.replies_cases given with ⟨same, _⟩ | ⟨_, _, _, same, _⟩
      · exact (congrArg Ground.store same).symm
      · exact (congrArg Ground.store same).symm

theorem World.Answers.clock {chance : Chance} {since : Nat} {world after : World}
    {exchange : Service.Exchange} (answers : Answers chance since world exchange after) :
    after.clock = world.clock := by
  cases answers <;> rfl

namespace World.Covers

variable {world real after : World} {since early delay : Nat}

theorem clock (covers : world.Covers real) : world.clock = real.clock := by
  cases covers
  rfl

theorem endWorker (covers : world.Covers real) : world.endWorker.Covers real.endWorker := by
  obtain ⟨store, _⟩ := covers
  exact .mk store trivial

theorem staff (covers : world.Covers real) {worker worker' : Worker} (pairs : worker.Covers worker') :
    World.Covers { world with worker } { real with worker := worker' } := by
  obtain ⟨store, _⟩ := covers
  exact .mk store pairs

theorem later (covers : world.Covers real) (clock : Nat) :
    World.Covers { world with clock } { real with clock } := by
  obtain ⟨store, pairs⟩ := covers
  exact .mk store pairs

/-- What is answered by the queue itself is answered so in a world that covers this one. -/
theorem poll (covers : world.Covers real) (earlier : early ≤ since) {request : Service.Request}
    (fixed : request.isOpen = false) {answer : request.Answer}
    (polled : real.poll since request = .answered answer delay after) :
    ∃ delay' after', world.poll early request = .answered answer delay' after' ∧ after'.Covers after ∧
      after.backend = real.backend := by
  obtain @⟨backend, secrets, drawn, worker, store, covers⟩ := covers
  cases request with
  | work | drawSecret => cases fixed
  | unlock | claimRun | releaseRun | signalStop | takeWorker =>
    cases polled
    exact ⟨_, _, rfl, .mk store covers, rfl⟩
  | lock =>
    simp only [World.poll] at polled ⊢
    split at polled
    · cases polled
    · cases polled
      exact ⟨_, _, if_neg ‹_›, .mk store covers, rfl⟩
  | announce index =>
    simp only [World.poll] at polled ⊢
    split at polled
    · cases polled
      exact ⟨_, _, if_pos ‹_›, .mk store covers, rfl⟩
    · rw [if_neg ‹_›]
      split at polled
      · cases polled
        exact ⟨_, _, if_pos ‹_›, .mk store covers, rfl⟩
      · rw [if_neg ‹_›]
        split at polled
        · cases polled
          exact ⟨_, _, if_pos (by omega), .mk store covers, rfl⟩
        · cases polled
  | receive =>
    simp only [World.poll] at polled ⊢
    split at polled
    · cases polled
      exact ⟨_, _, if_pos ‹_›, .mk store covers, rfl⟩
    · rw [if_neg ‹_›]
      cases popped : world.lane.pop with
      | none =>
        rw [popped] at polled
        cases polled
      | some next =>
        rw [popped] at polled
        cases polled
        exact ⟨_, _, rfl, .mk store covers, rfl⟩
  | startWorker =>
    simp only [World.poll] at polled ⊢
    cases own : world.worker with
    | absent =>
      rw [own] at covers
      cases worker with
      | absent =>
        cases polled
        exact ⟨_, _, rfl, .mk store (Task.Covers.refl _), rfl⟩
      | live | stopped => exact covers.elim
    | live | stopped =>
      rw [own] at covers
      cases worker with
      | absent => exact covers.elim
      | live | stopped =>
        cases polled
        exact ⟨_, _, rfl, .mk store (own ▸ covers), rfl⟩
  | awaitWorker limit =>
    simp only [World.poll, ← covers.isLive] at polled ⊢
    split at polled
    · cases polled
      exact ⟨_, _, if_pos ‹_›, .mk store covers, rfl⟩
    · rw [if_neg ‹_›]
      split at polled
      · rename_i late
        cases polled
        refine ⟨_, _, if_pos ?_, .mk store covers, rfl⟩
        cases limit with
        | none => cases late
        | some limit =>
          have late : since + limit ≤ world.clock := of_decide_eq_true late
          exact decide_eq_true (by omega)
      · cases polled
  | pause duration =>
    simp only [World.poll] at polled ⊢
    split at polled
    · cases polled
      exact ⟨_, _, if_pos (by omega), .mk store covers, rfl⟩
    · cases polled

/-- What is answered may be answered so in a world that covers this one. -/
theorem answer (covers : world.Covers real) (within : real.backend.Within faults)
    (whole : ¬ faults.breaks) (earlier : early ≤ since) {request : Service.Request}
    {answer : request.Answer} (polled : real.poll since request = .answered answer delay after) :
    ∃ chance after', (¬ faults.store → chance.failure = none) ∧
      world.answer? chance early request = some (answer, after') ∧ after'.Covers after ∧
      after.backend.Within faults := by
  cases request with
  | work request =>
    obtain @⟨backend, secrets, drawn, worker, store, covers⟩ := covers
    obtain ⟨fortune, reply, steady, served, kept, same⟩ := Backend.serve_fortune within whole request
    have served : backend.serve request = (some reply, (backend.serve request).2) := Prod.ext served rfl
    simp only [World.poll] at polled
    rw [served] at polled
    cases polled
    rw [store] at same
    refine ⟨⟨fortune, .error ""⟩, world.withStore (backend.serve request).2.books.store.store, steady, ?_,
      .mk rfl covers, kept⟩
    exact congrArg (fun served : request.Answer × Store => some (served.1, world.withStore served.2)) same
  | drawSecret =>
    obtain @⟨backend, secrets, drawn, worker, store, covers⟩ := covers
    cases polled
    exact ⟨{ Chance.plain with secret := .ok (secrets drawn) }, _, fun _ => rfl, rfl, .mk store covers,
      within⟩
  | _ =>
    obtain ⟨_, after', polled', covers', same⟩ := covers.poll earlier rfl polled
    refine ⟨.plain, after', fun _ => rfl, ?_, covers', same ▸ within⟩
    simp only [answer?, polled']

variable {σ α : Type} {task client next : Task σ α}

/-- Where a task moves on, it may do so in a world that covers this one. -/
theorem moves (covers : world.Covers real) (within : real.backend.Within faults)
    (whole : ¬ faults.breaks) (like : task.Covers client)
    (moved : real.turn client = .moved after next) :
    ∃ chance, (¬ faults.store → chance.failure = none) ∧ after.backend.Within faults ∧
      ∃ task' : Task σ α, task'.Covers next ∧
        ((world.act chance task = .began task' ∧ world.Covers after) ∨
          ∃ exchange after', world.act chance task = .asked exchange after' task' ∧
            after'.Covers after) := by
  unfold turn at moved
  split at moved
  · cases moved
  split at moved
  · cases moved
  · rename_i state again
    cases moved
    unfold act
    rw [like.program, again]
    refine ⟨.plain, fun _ => rfl, within, _, ?_, .inl ⟨rfl, covers⟩⟩
    exact ⟨congrFun like.round state, like.round, covers.clock.le⟩
  · rename_i request rest asks
    split at moved
    · cases moved
    · cases moved
    · rename_i answer delay after' polled
      cases moved
      obtain ⟨chance, after', steady, answered, covers', kept⟩ := covers.answer within whole like.since polled
      unfold act
      rw [like.program, asks]
      refine ⟨chance, steady, kept, { task with since := world.clock, program := rest answer }, ?_,
        .inr ⟨⟨request, answer⟩, after', ?_, covers'⟩⟩
      · refine ⟨rfl, like.round, ?_⟩
        rw [← (answers_of_answer? answered).clock, covers'.clock]
        exact Nat.le_add_right _ _
      · simp only [answered]

/-- Where a task ends, it does so in every world. -/
theorem ends (like : task.Covers client) {value : α} (ended : real.turn client = .finished value)
    (chance : Chance) : world.act chance task = .finished value := by
  unfold turn at ended
  split at ended
  · cases ended
  split at ended
  · rename_i value finished
    cases ended
    unfold act
    rw [like.program, finished]
  · cases ended
  · split at ended <;> cases ended

end World.Covers

namespace World

variable {σ α : Type} {world after : World} {task : Task σ α} {since : Nat}

/-- Nobody breaks off where the gateway does not. -/
theorem whole_poll (within : world.backend.Within faults) (whole : ¬ faults.breaks)
    (request : Service.Request) : world.poll since request ≠ .brokeOff after := by
  intro broken
  cases request with
  | work request =>
    obtain ⟨_, reply, _, served, _⟩ := Backend.serve_fortune within whole request
    have served : world.backend.serve request = (some reply, (world.backend.serve request).2) :=
      Prod.ext served rfl
    simp only [poll] at broken
    rw [served] at broken
    cases broken
  | drawSecret | unlock | claimRun | releaseRun | signalStop | takeWorker => cases broken
  | lock | startWorker | pause =>
    simp only [poll] at broken
    split at broken <;> cases broken
  | receive | awaitWorker =>
    simp only [poll] at broken
    split at broken
    · cases broken
    · split at broken <;> cases broken
  | announce =>
    simp only [poll] at broken
    split at broken
    · cases broken
    · split at broken
      · cases broken
      · split at broken <;> cases broken

theorem whole_turn (within : world.backend.Within faults) (whole : ¬ faults.breaks) :
    world.turn task ≠ .brokeOff after := by
  intro broken
  unfold turn at broken
  split at broken
  · cases broken
  split at broken
  · cases broken
  · cases broken
  · split at broken
    · cases broken
    · exact absurd ‹_› (whole_poll within whole _)
    · cases broken

theorem poll_of_waits {request : Service.Request} {rest : request.Answer → Program Service (Next σ α)}
    (waits : world.turn task = .waits) (late : ¬ world.clock < task.since)
    (asks : task.program = .ask request rest) : world.poll task.since request = .waits := by
  unfold turn at waits
  rw [if_neg late, asks] at waits
  dsimp only at waits
  split at waits
  · assumption
  · cases waits
  · cases waits

/-- A task that waits goes on by itself at a later moment, if at all. -/
theorem le_alarm (waits : world.turn task = .waits) {moment : Nat}
    (rings : world.alarm task = some moment) : world.clock ≤ moment := by
  unfold alarm at rings
  split at rings
  · rename_i early
    cases rings
    exact early.le
  · rename_i late
    split at rings
    · rename_i asks
      have waits := poll_of_waits waits late asks
      cases rings
      simp only [poll] at waits
      split at waits
      · cases waits
      · split at waits
        · cases waits
        · split at waits
          · cases waits
          · omega
    · rename_i limit rest asks
      have waits := poll_of_waits waits late asks
      simp only [poll] at waits
      cases limit with
      | none => cases rings
      | some limit =>
        cases rings
        split at waits
        · cases waits
        · split at waits
          · cases waits
          · rename_i early
            change world.clock ≤ task.since + limit
            exact (Nat.lt_of_not_le fun passed => early (decide_eq_true passed)).le
    · rename_i asks
      have waits := poll_of_waits waits late asks
      cases rings
      simp only [poll] at waits
      split at waits
      · cases waits
      · omega
    · cases rings

theorem le_nextAlarm (waits : world.turn task = .waits) (idle : world.workerTurn = none)
    {moment : Nat} (rings : world.nextAlarm task = some moment) : world.clock ≤ moment := by
  have ofWorker : ∀ {task' : Task Unit Unit}, world.worker = .live task' →
      world.turn task' = .waits := by
    intro task' live
    unfold workerTurn at idle
    rw [live] at idle
    dsimp only at idle
    split at idle <;> first | assumption | cases idle
  unfold nextAlarm at rings
  cases own : world.worker with
  | live task' =>
    rw [own] at rings
    dsimp only at rings
    split at rings
    · rename_i clientRings workerRings
      cases rings
      exact le_min (le_alarm waits clientRings) (le_alarm (ofWorker own) workerRings)
    · rcases Option.or_eq_some_iff.1 rings with clientRings | ⟨_, workerRings⟩
      · exact le_alarm waits clientRings
      · exact le_alarm (ofWorker own) workerRings
  | absent | stopped =>
    rw [own] at rings
    dsimp only at rings
    split at rings
    · rename_i absent
      cases absent
    · rw [Option.or_none] at rings
      exact le_alarm waits rings

end World

namespace Hall

open World (Turn)

variable {hall : Hall} {real after : World}

/-- Where the worker moves on, it may do so in a hall that covers its world. -/
theorem covers_work (covers : hall.world.Covers real) (within : real.backend.Within faults)
    (whole : ¬ faults.breaks) (worked : real.workerTurn = some after) :
    ∃ chance, (¬ faults.store → chance.failure = none) ∧ after.backend.Within faults ∧
      (hall.step (.work chance)).world.Covers after ∧
      (hall.step (.work chance)).visits = hall.visits := by
  have pairs : hall.world.worker.Covers real.worker := by
    cases covers
    assumption
  unfold World.workerTurn at worked
  split at worked
  · cases worked
  · cases worked
  · rename_i client live
    rw [live] at pairs
    cases own : hall.world.worker with
    | absent | stopped =>
      rw [own] at pairs
      exact pairs.elim
    | live task =>
      rw [own] at pairs
      simp only [step, own]
      split at worked
      · rename_i ended
        cases worked
        refine ⟨.plain, fun _ => rfl, within, ?_⟩
        rw [World.Covers.ends pairs ended]
        exact ⟨covers.endWorker, rfl⟩
      · exact absurd ‹_› (World.whole_turn within whole)
      · rename_i moved
        cases worked
        obtain ⟨chance, steady, kept, task', like, moves⟩ := covers.moves within whole pairs moved
        refine ⟨chance, steady, kept, ?_⟩
        rcases moves with ⟨began, covers'⟩ | ⟨exchange, after', asked, covers'⟩
        · rw [began]
          exact ⟨covers'.staff like, rfl⟩
        · rw [asked]
          exact ⟨covers'.staff like, rfl⟩
      · cases worked

/-- The kinds of visits that have turns. -/
structure Visiting {σ α : Type} (goOn : Task σ α → Visit) (leave : α → Visit) : Prop where
  turn : ∀ (hall : Hall) (n : Nat) task chance, hall.visits[n]? = some (goOn task) →
    hall.step (.turn n chance) = hall.advance n (hall.world.act chance task) goOn leave

variable {σ α : Type} {goOn : Task σ α → Visit} {leave : α → Visit}

/-- How a visit stands when a call was performed. -/
def Stands (goOn : Task σ α → Visit) (leave : α → Visit) (visit : Visit) : World.Outcome α → Prop
  | .finished value => visit = leave value
  | .unfinished => ∃ task, visit = goOn task
  | .brokeOff => False

/-- What the performance of a call has come to may happen in a hall. -/
def Performs (faults : Faults) (goOn : Task σ α → Visit) (leave : α → Visit) (n : Nat) (hall : Hall)
    (performed : World.Outcome α × World) : Prop :=
  ∃ events : List Event, (¬ faults.store → ∀ event ∈ events, event.Steady) ∧
    (events.foldl step hall).world.Covers performed.2 ∧ performed.2.backend.Within faults ∧
    ∃ visit, (events.foldl step hall).visits = hall.visits.set n visit ∧
      Stands goOn leave visit performed.1

variable {n : Nat} {outcome : World.Outcome α} {performed : World.Outcome α × World}

theorem Performs.now {visit : Visit} (covers : hall.world.Covers real) (within : real.backend.Within faults)
    (found : hall.visits[n]? = some visit) (stands : Stands goOn leave visit outcome) :
    Performs faults goOn leave n hall (outcome, real) := by
  refine ⟨[], fun _ _ absent => (by cases absent), covers, within, visit, ?_, stands⟩
  obtain ⟨bound, rfl⟩ := List.getElem?_eq_some_iff.1 found
  exact (List.set_getElem_self bound).symm

theorem Performs.step (event : Event) (steady : ¬ faults.store → event.Steady)
    (visits : ∀ visit, (hall.step event).visits.set n visit = hall.visits.set n visit)
    (performs : Performs faults goOn leave n (hall.step event) performed) :
    Performs faults goOn leave n hall performed := by
  obtain ⟨events, steadily, covers, within, visit, same, stands⟩ := performs
  refine ⟨event :: events, fun whole other there => ?_, covers, within, visit, same.trans (visits visit),
    stands⟩
  rcases List.mem_cons.1 there with rfl | there
  · exact steady whole
  · exact steadily whole other there

/-- The client ends. -/
theorem Performs.ends {task client : Task σ α} {value : α} (visiting : Visiting goOn leave)
    (found : hall.visits[n]? = some (goOn task)) (like : task.Covers client)
    (covers : hall.world.Covers real) (within : real.backend.Within faults)
    (ended : real.turn client = .finished value) :
    Performs faults goOn leave n hall (.finished value, real) := by
  obtain ⟨bound, _⟩ := List.getElem?_eq_some_iff.1 found
  have left : hall.step (.turn n .plain) = { hall with visits := hall.visits.set n (leave value) } := by
    rw [visiting.turn hall n task .plain found, World.Covers.ends like ended]
    rfl
  refine .step (.turn n .plain) (fun _ => rfl) (fun visit => ?_) ?_
  · rw [left]
    exact List.set_set ..
  · rw [left]
    exact .now covers within (List.getElem?_set_self bound) rfl

/-- The client goes on, and so does the visitor. -/
theorem Performs.goes {task client next : Task σ α} {after : World} (visiting : Visiting goOn leave)
    (whole : ¬ faults.breaks) (found : hall.visits[n]? = some (goOn task)) (like : task.Covers client)
    (covers : hall.world.Covers real) (within : real.backend.Within faults)
    (moved : real.turn client = .moved after next)
    (goesOn : ∀ (later : Hall) (task' : Task σ α), later.visits[n]? = some (goOn task') →
      task'.Covers next → later.world.Covers after → after.backend.Within faults →
      Performs faults goOn leave n later performed) :
    Performs faults goOn leave n hall performed := by
  obtain ⟨bound, _⟩ := List.getElem?_eq_some_iff.1 found
  obtain ⟨chance, steady, kept, task', like', moves⟩ := covers.moves within whole like moved
  have turned : (hall.step (.turn n chance)).world.Covers after ∧
      (hall.step (.turn n chance)).visits = hall.visits.set n (goOn task') := by
    rw [visiting.turn hall n task chance found]
    rcases moves with ⟨began, covers'⟩ | ⟨exchange, after', asked, covers'⟩
    · rw [began]
      exact ⟨covers', rfl⟩
    · rw [asked]
      exact ⟨covers', rfl⟩
  refine .step (.turn n chance) steady (fun visit => ?_) (goesOn _ task' ?_ like' turned.1 kept)
  · rw [turned.2]
    exact List.set_set ..
  · rw [turned.2]
    exact List.getElem?_set_self bound

/-- Whatever is performed may happen in a hall that covers its world. -/
theorem performs_settle (visiting : Visiting goOn leave) (whole : ¬ faults.breaks) (steps : Nat) :
    ∀ (phase : World.Phase) (hall : Hall) (real : World) (task client : Task σ α),
      hall.visits[n]? = some (goOn task) → task.Covers client → hall.world.Covers real →
      real.backend.Within faults → (phase = .clock → real.workerTurn = none) →
      Performs faults goOn leave n hall (World.settle steps phase real client) := by
  induction steps with
  | zero =>
    intro phase hall real task client found like covers within idle
    exact .now covers within found ⟨task, rfl⟩
  | succ steps ih =>
    intro phase hall real task client found like covers within idle
    -- Where the client ends or goes on, the phase makes no difference.
    have ends : ∀ {value}, real.turn client = .finished value →
        Performs faults goOn leave n hall (.finished value, real) := fun ended =>
      .ends visiting found like covers within ended
    have goes : ∀ {after next}, real.turn client = .moved after next →
        Performs faults goOn leave n hall (World.settle steps .client after next) := fun moved =>
      .goes visiting whole found like covers within moved fun later task' found' like' covers' kept =>
        ih .client later _ task' _ found' like' covers' kept nofun
    cases phase with
    | worker =>
      unfold World.settle
      cases worked : real.workerTurn with
      | none => exact ih .clock hall real task client found like covers within fun _ => worked
      | some after =>
        obtain ⟨chance, steady, kept, covers', same⟩ := covers_work covers within whole worked
        refine .step (.work chance) steady (fun visit => by rw [same])
          (ih .worker _ _ task client ?_ like covers' kept nofun)
        rw [same]
        exact found
    | client =>
      unfold World.settle
      cases turned : real.turn client with
      | finished value => exact ends turned
      | brokeOff => exact absurd turned (World.whole_turn within whole)
      | moved after next => exact goes turned
      | waits => exact ih .worker hall real task client found like covers within nofun
    | clock =>
      unfold World.settle
      cases turned : real.turn client with
      | finished value => exact ends turned
      | brokeOff => exact absurd turned (World.whole_turn within whole)
      | moved after next => exact goes turned
      | waits =>
        dsimp only
        split
        · rename_i moment rings
          have later := World.le_nextAlarm turned (idle rfl) rings
          have waited : hall.world.clock + (moment - hall.world.clock) = moment := by
            rw [covers.clock]
            omega
          refine .step (.wait (moment - hall.world.clock)) (fun _ => trivial) (fun _ => rfl)
            (ih .client _ _ task client found like ?_ within nofun)
          change World.Covers { hall.world with clock := hall.world.clock + (moment - hall.world.clock) } _
          rw [waited]
          exact covers.later moment
        · exact .now covers within found ⟨task, rfl⟩

theorem performs_enter (visiting : Visiting goOn leave) (whole : ¬ faults.breaks) {task client : Task σ α}
    (like : task.Covers client) (covers : hall.world.Covers real) (within : real.backend.Within faults)
    (extra : Nat) :
    Performs faults goOn leave hall.visits.length (hall.enter (goOn task)) (real.perform extra client) :=
  performs_settle visiting whole _ .client (hall.enter (goOn task)) real task client
    List.getElem?_concat_length like covers within nofun

/-- How a call ends when it is performed, and the world then. -/
def Event.perform (real : World) : Event → World.Outcome Visit × World
  | .add request _ => (real.call (Queue.add request).run).map (.map (.added request)) id
  | .run => real.run.map (.map .ran) id
  | .close => (real.call Queue.close.run).map (.map .closed) id
  | .turn _ _ | .work _ | .wait _ => (.unfinished, real)

/-- What the performance of a call has come to may happen in a hall where a visitor makes the call. -/
def Comes (faults : Faults) (hall : Hall) (performed : World.Outcome Visit × World) : Prop :=
  ∃ events : List Event, (¬ faults.store → ∀ event ∈ events, event.Steady) ∧
    (events.foldl step hall).world.Covers performed.2 ∧ performed.2.backend.Within faults ∧
    ∀ visit, performed.1 = .finished visit →
      (events.foldl step hall).visits[hall.visits.length]? = some visit

theorem Performs.comes (call : Event) {task : Task σ α} (steady : call.Steady)
    (enters : hall.step call = hall.enter (goOn task))
    (performs : Performs faults goOn leave hall.visits.length (hall.enter (goOn task)) performed) :
    Comes faults hall (performed.map (.map leave) id) := by
  obtain ⟨events, steadily, covers, within, visit, same, stands⟩ := performs
  refine ⟨call :: events, fun whole other there => ?_, ?_, within, fun visit' ended => ?_⟩
  · rcases List.mem_cons.1 there with rfl | there
    · exact steady
    · exact steadily whole other there
  · rw [List.foldl_cons, enters]
    exact covers
  · rw [List.foldl_cons, enters, same]
    obtain ⟨outcome, real⟩ := performed
    cases outcome with
    | finished value =>
      cases ended
      cases stands
      exact List.getElem?_set_self (by simp [enter])
    | brokeOff | unfinished => cases ended

/-- A call that is performed may come to the same in a hall that covers the world. -/
theorem comes_perform (whole : ¬ faults.breaks) (call : Event) (covers : hall.world.Covers real)
    (within : real.backend.Within faults) : Comes faults hall (call.perform real) := by
  have once : ∀ {α : Type} (program : Program Service α),
      (Task.once hall.world.clock program).Covers (Task.once real.clock program) :=
    fun program => ⟨rfl, rfl, covers.clock.le⟩
  cases call with
  | add request fits =>
    have visiting : Visiting (.adding request) (.added request) :=
      ⟨fun hall n task chance found => by simp only [step, found]⟩
    exact (performs_enter visiting whole (once _) covers within 0).comes (.add request fits) trivial rfl
  | run =>
    have visiting : Visiting .running .ran := ⟨fun hall n task chance found => by simp only [step, found]⟩
    have same : real.options = hall.world.options := by
      cases covers
      rfl
    have like : Task.Covers (.ofRounds hall.world.clock (Queue.runRound hall.world.options) .claiming)
        (.ofRounds real.clock (Queue.runRound real.options) .claiming) := by
      rw [same]
      exact ⟨rfl, rfl, covers.clock.le⟩
    exact (performs_enter visiting whole like covers within 0).comes .run trivial rfl
  | close =>
    have visiting : Visiting .closing .closed :=
      ⟨fun hall n task chance found => by simp only [step, found]⟩
    exact (performs_enter visiting whole (once _) covers within 0).comes .close trivial rfl
  | turn | work | wait =>
    exact ⟨[], fun _ _ absent => (by cases absent), covers, within, fun _ absent => by cases absent⟩

/-- Calls that are performed one after the other may come to the same in a hall. -/
theorem covers_calls (whole : ¬ faults.breaks) (clock : Nat) (within : backend.Within faults)
    (secrets : Nat → Secret) (drawn : Nat) (options : Queue.Options) (calls : List Event) :
    ∃ events : List Event, (¬ faults.store → ∀ event ∈ events, event.Steady) ∧
      (run (.build clock backend secrets drawn options) events).world.Covers
        (calls.foldl (fun real call => (call.perform real).2)
          (.build clock backend secrets drawn options)) := by
  suffices covering : ∀ (calls : List Event) (hall : Hall) (real : World), hall.world.Covers real →
      real.backend.Within faults → ∃ events : List Event,
        (¬ faults.store → ∀ event ∈ events, event.Steady) ∧
        (events.foldl step hall).world.Covers
          (calls.foldl (fun real call => (call.perform real).2) real) from
    covering calls (start _) _ (.refl _) within
  intro calls
  induction calls with
  | nil => exact fun hall real covers _ => ⟨[], fun _ _ absent => (by cases absent), covers⟩
  | cons call calls ih =>
    intro hall real covers within
    obtain ⟨first, steady, covers, within, -⟩ := comes_perform whole call covers within
    obtain ⟨later, steady', covers⟩ := ih _ _ covers within
    refine ⟨first ++ later, fun whole event there => ?_, ?_⟩
    · exact (List.mem_append.1 there).elim (steady whole event) (steady' whole event)
    · rw [List.foldl_append]
      exact covers

end Hall

end

end Registrar
