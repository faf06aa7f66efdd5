import Mathlib.Data.List.Induction
import Registrar.Proofs.Hall.IndexOrder

/-!
Turns in a hall. A visitor who adds a request moves from one stage of its add to the next, all others and
the worker leave the keys of items as they are, so every event keeps a hall in order (`orderly_step`), and
so does a run of any length (`orderly_run`). `Leads` follows the store through the log of a run.
-/

namespace Registrar

open Hall (linesOf filed times Timely Records)

section

variable {chance : Chance} {since : Nat} {world after : World}

theorem World.Answers.free {answer : Unit} (answers : Answers chance since world ⟨.lock, answer⟩ after) :
    world.locked = false := by
  cases answers with
  | lock free => exact free

theorem World.Answers.lane_error {index : Int64} {answer : Except QueueError Unit}
    (answers : Answers chance since world ⟨.announce index, answer⟩ after) (error : QueueError)
    (failed : answer = .error error) : error = .laneFull index ∨ error = .laneClosed := by
  cases answers with
  | refuse =>
    cases failed
    exact .inr rfl
  | push => cases failed
  | overflow =>
    cases failed
    exact .inl rfl

/-- The worker of the world is as before, or it was just started. -/
theorem World.Answers.worker {exchange : Service.Exchange}
    (answers : Answers chance since world exchange after) :
    after.worker = world.worker ∨
      (exchange = ⟨.startWorker, true⟩ ∧ world.worker = .absent ∧
        after.worker = .live world.newWorker) := by
  cases answers with
  | hire absent => exact .inr ⟨rfl, absent, rfl⟩
  | _ => exact .inl rfl

end

namespace Hall

variable {caller : Caller} {world : World} {exchange : Service.Exchange}

/-- The calls that add nothing leave the keys of items as they are. -/
theorem regular_of_tames (caller : Caller) {seen next : Option Bytes} (tames : Tames seen exchange next)
    (present : ∀ key, seen = some key → world.store.contains key = true)
    (possible : exchange.Possible world.store) :
    let line : Line := ⟨caller, world, exchange⟩
    line.Regular ∧ line.filed? = none ∧ line.told? = none ∧
      ∀ key, next = some key → line.after.contains key = true := by
  intro line
  obtain ⟨request, answer⟩ := exchange
  obtain ⟨gentle, rfl⟩ := tames
  have simple : line.changes = false → line.told? = none →
      Service.Exchange.seen ⟨request, answer⟩ = none →
      line.Regular ∧ line.filed? = none ∧ line.told? = none ∧
        ∀ key, Service.Exchange.seen ⟨request, answer⟩ = some key →
          line.after.contains key = true := by
    intro unchanged untold unseen
    refine ⟨Line.regular_of_still unchanged, (Line.still unchanged).2, untold, fun key absent => ?_⟩
    cases unseen.symm.trans absent
  cases request with
  | work request =>
    cases request with
    | now | gateway => exact simple rfl rfl rfl
    | store request =>
      cases request with
      | erase => exact gentle.elim
      | get | scan | count | flush => exact simple (by cases answer <;> rfl) rfl rfl
      | «exists» key =>
        have unchanged : line.changes = false := by cases answer <;> rfl
        refine ⟨Line.regular_of_still unchanged, (Line.still unchanged).2, rfl, fun key' same => ?_⟩
        rw [(Line.still unchanged).1]
        rcases answer with error | _ | _
        · cases same
        · cases same
        · cases same
          rcases possible with told | ⟨error, failed⟩
          · exact (Except.ok.inj told).symm
          · cases failed
      | put key record =>
        rcases answer with error | ⟨⟩
        · exact simple rfl rfl rfl
        · have unfiled : line.filed? = none := by
            show (if Items.keyStart.isPrefixOf key && !world.store.contains key then _ else _) = _
            rcases gentle with rfl | foreign
            · rw [present key rfl, Bool.not_true, Bool.and_false]
              rfl
            · rw [foreign, Bool.false_and]
              rfl
          have wrote : ∀ k, line.after.contains k = (decide (k = key) || world.store.contains k) :=
            fun k => Store.contains_put world.store key record k
          refine ⟨⟨fun item absent => ?_, fun _ k begins => ?_, fun k there => ?_⟩, unfiled, rfl, ?_⟩
          · cases unfiled.symm.trans absent
          · rw [wrote]
            by_cases same : k = key
            · subst same
              rcases gentle with rfl | foreign
              · simp [line, present k rfl]
              · rw [foreign] at begins
                cases begins
            · simp [same, line]
          · rw [wrote]
            exact Bool.or_eq_true_iff.2 (.inr there)
          · exact fun key absent => by cases absent
  | lock | unlock | announce => exact gentle.elim
  | _ => exact simple rfl rfl rfl

end Hall

namespace Adds

variable {request : ItemRequest} {stage stage' : Adding} {exchange : Service.Exchange} {n : Nat}
  {world after : World} {log : List Hall.Line} {chance : Chance} {since : Nat} {holder : Option Nat}

/-- Of the requests of an add only one changes the store, which puts its item there. -/
theorem changes (adds : Adds request stage exchange stage') (caller : Hall.Caller) (world : World) :
    ((⟨caller, world, exchange⟩ : Hall.Line).changes = false ∧ stage'.filed = stage.filed) ∨
      ∃ item, stage = .putting item ∧ stage' = .unlocking (.ok item) ∧
        exchange = ⟨.work (.store (.put (Items.key item.index) (Items.encode item))), .ok ()⟩ := by
  cases adds with
  | @draw answer | @count _ answer => rcases answer with error | value <;> exact .inl ⟨rfl, rfl⟩
  | lock | date | announce => exact .inl ⟨rfl, rfl⟩
  | @check item answer => rcases answer with error | _ | _ <;> exact .inl ⟨rfl, rfl⟩
  | @put item answer =>
    rcases answer with error | ⟨⟩
    · exact .inl ⟨rfl, rfl⟩
    · exact .inr ⟨item, rfl, rfl, rfl⟩
  | @unlock filed => rcases filed with error | item <;> exact .inl ⟨rfl, rfl⟩

/-- Of the requests of an add only one is on the lane, which announces its item. -/
theorem tells (adds : Adds request stage exchange stage') (caller : Hall.Caller) (world : World) :
    ((⟨caller, world, exchange⟩ : Hall.Line).told? = none ∧ stage'.told = stage.told) ∨
      ∃ item answer, stage = .announcing item ∧ stage' = .announced item answer ∧
        exchange = ⟨.announce item.index, answer⟩ := by
  cases adds with
  | @draw answer | @count _ answer | @put _ answer =>
    rcases answer with error | value <;> exact .inl ⟨rfl, rfl⟩
  | lock | date => exact .inl ⟨rfl, rfl⟩
  | @check item answer => rcases answer with error | _ | _ <;> exact .inl ⟨rfl, rfl⟩
  | @unlock filed => rcases filed with error | item <;> exact .inl ⟨rfl, rfl⟩
  | @announce item answer => exact .inr ⟨item, answer, rfl, rfl, rfl⟩

/-- The item of an add is stored under the next index, which is free. -/
theorem filed? (fits : request.Fits) (known : (Adding.putting item).Known request world.store log n)
    (caller : Hall.Caller) :
    let line : Hall.Line := ⟨caller, world,
      ⟨.work (.store (.put (Items.key item.index) (Items.encode item))), .ok ()⟩⟩
    line.filed? = some item ∧ line.Regular := by
  intro line
  obtain ⟨⟨⟨secret, date, own⟩, index, _, _⟩, free⟩ := known
  have sound : item.Fits := own ▸ fits.item _ _ _
  have files : line.filed? = some item := by
    show (if Items.keyStart.isPrefixOf (Items.key item.index) && !world.store.contains
      (Items.key item.index) then (Item.layout.decode (Items.encode item)).toOption else _) = _
    rw [Items.keyStart_isPrefixOf_key, free, Items.decode_encode sound]
    rfl
  refine ⟨files, fun other same => ?_, fun absent => ?_, fun k there => ?_⟩
  · cases files.symm.trans same
    exact ⟨rfl, index, free⟩
  · cases files.symm.trans absent
  · exact (Store.contains_put ..).trans (Bool.or_eq_true_iff.2 (.inr there))

/-- What an add's next request comes to. -/
structure Turned (request : ItemRequest) (n : Nat) (log : List Hall.Line) (line : Hall.Line)
    (stage : Adding) : Prop where
  regular : line.Regular
  next : ∀ item, line.filed? = some item → Hall.Next line.before.store log request item
  known : stage.Known request line.after (log ++ [line]) n
  records : Records (log ++ [line]) n stage.filed stage.told

/-- What is known of an add after its next request. -/
theorem known (adds : Adds request stage exchange stage')
    (answers : World.Answers chance since world exchange after) (sound : Hall.Sound world.store log)
    (known : stage.Known request world.store log n) :
    let line : Hall.Line := ⟨.visitor n, world, exchange⟩
    stage'.Known request line.after (log ++ [line]) n := by
  intro line
  have fails : ∀ {error : QueueError}, error.isOfLane = false →
      (∀ index, error ≠ .duplicateIndex index) → Hall.Fails (log ++ [line]) n error :=
    fun lane other => ⟨lane, fun index same => absurd same (other index)⟩
  cases adds with
  | @draw answer =>
    rcases answer with message | secret
    · exact fails rfl nofun
    · trivial
  | lock => trivial
  | @count secret answer =>
    rcases answers.possible with told | ⟨error, failed⟩
    · cases told
      exact rfl
    · cases failed
      exact fails rfl nofun
  | @date secret count date =>
    have index : (Item.ofRequest (Queue.indexAfter count) secret date request).index = _ :=
      index_ofRequest _ _ _ _
    have read : (Item.ofRequest (Queue.indexAfter count) secret date request).dateCreated = date := by
      cases request <;> rfl
    refine ⟨⟨secret, date, by rw [index]⟩, index.trans (congrArg Queue.indexAfter known), ?_, ?_⟩
    · rw [read, times_append]
      exact List.mem_append_right _ List.mem_cons_self
    · intro timely other there
      rw [filed_append] at there
      have before := sound.dated other ((List.mem_append.1 there).resolve_right nofun)
      unfold Timely at timely
      rw [times_append, List.pairwise_append] at timely
      rw [read]
      exact timely.2.2 _ before _ List.mem_cons_self
  | @check item answer =>
    rcases answers.possible with told | ⟨error, failed⟩
    · cases told
      have regular : line.Regular := Hall.Line.regular_of_still rfl
      cases taken : world.store.contains (Items.key item.index) with
      | false =>
        simp only [Store.serve, taken]
        exact ⟨Hall.Next.append known regular rfl, taken⟩
      | true =>
        simp only [Store.serve, taken]
        refine ⟨rfl, fun _ _ => ⟨line, ?_, ?_⟩⟩
        · rw [linesOf_own rfl]
          exact List.mem_append_right _ List.mem_cons_self
        · exact known.index ▸ taken
    · cases failed
      exact fails rfl nofun
  | @put item answer =>
    rcases answer with error | ⟨⟩
    · exact fails rfl nofun
    · exact known.1.own
  | @unlock filed =>
    rcases filed with error | item
    · exact Hall.Fails.append known
    · exact known
  | announce => exact ⟨known, answers.lane_error⟩

/-- Every request of an add takes what is known of it along. -/
theorem turned (adds : Adds request stage exchange stage') (fits : request.Fits)
    (answers : World.Answers chance since world exchange after) (sound : Hall.Sound world.store log)
    (known : stage.Known request world.store log n)
    (records : Records log n stage.filed stage.told) :
    Turned request n log ⟨.visitor n, world, exchange⟩ stage' := by
  have later := adds.known answers sound known
  rcases adds.changes (.visitor n) world with
    ⟨unchanged, same⟩ | ⟨item, rfl, rfl, rfl⟩
  · refine ⟨Hall.Line.regular_of_still unchanged, fun item absent => ?_, later, ?_⟩
    · cases (Hall.Line.still unchanged).2.symm.trans absent
    · rcases adds.tells (.visitor n) world with
        ⟨untold, silent⟩ | ⟨item, answer, rfl, rfl, rfl⟩
      · rw [same, silent]
        exact records.silent rfl unchanged untold
      · exact Hall.Records.tell records rfl unchanged rfl
  · obtain ⟨files, regular⟩ := filed? fits known (.visitor n)
    refine ⟨regular, fun other same => ?_, later, Hall.Records.file records rfl rfl files rfl⟩
    cases files.symm.trans same
    exact known.1

/-- Only the visitor who is assigning an index stores an item. -/
theorem quiet (adds : Adds request stage exchange stage')
    (holds : stage.holds = true ↔ holder = some n) {caller : Hall.Caller} {m : Nat} (other : m ≠ n)
    (holding : holder = some m) : (⟨caller, world, exchange⟩ : Hall.Line).filed? = none := by
  rcases adds.changes caller world with ⟨unchanged, _⟩ | ⟨item, rfl, _, _⟩
  · exact (Hall.Line.still unchanged).2
  · cases holding.symm.trans (holds.1 rfl)
    exact absurd rfl other

/-- Who is assigning an index after the request. -/
theorem locks (adds : Adds request stage exchange stage')
    (answers : World.Answers chance since world exchange after)
    (lock : world.locked = holder.isSome) (holds : stage.holds = true ↔ holder = some n) :
    ∃ holder' : Option Nat, after.locked = holder'.isSome ∧
      (stage'.holds = true ↔ holder' = some n) ∧
      ∀ m, m ≠ n → (holder' = some m ↔ holder = some m) := by
  have stays : exchange.locks world.locked = world.locked → stage'.holds = stage.holds →
      ∃ holder' : Option Nat, after.locked = holder'.isSome ∧
        (stage'.holds = true ↔ holder' = some n) ∧
        ∀ m, m ≠ n → (holder' = some m ↔ holder = some m) := fun same same' =>
    ⟨holder, (answers.locked.trans same).trans lock, same' ▸ holds, fun _ _ => Iff.rfl⟩
  cases adds with
  | lock =>
    have free := answers.free
    rw [lock, Option.isSome_eq_false_iff, Option.isNone_iff_eq_none] at free
    refine ⟨some n, answers.locked, ⟨fun _ => rfl, fun _ => rfl⟩, fun m other => ?_⟩
    rw [free]
    exact ⟨fun same => absurd (Option.some.inj same).symm other, nofun⟩
  | @unlock filed =>
    refine ⟨none, answers.locked, ⟨fun held => ?_, nofun⟩, fun m other => ⟨nofun, fun same => ?_⟩⟩
    · rcases filed with error | item <;> cases held
    · cases (holds.1 rfl).symm.trans same
      exact absurd rfl other
  | @draw answer | @count _ answer | @put _ answer =>
    rcases answer with error | value <;> exact stays rfl rfl
  | @check _ answer => rcases answer with error | _ | _ <;> exact stays rfl rfl
  | date | announce => exact stays rfl rfl

end Adds

namespace Hall.Orderly

variable {hall later : Hall} {holder holder' : Option Nat} {caller : Hall.Caller}
  {exchange : Service.Exchange}

/-- A request keeps a hall in order where it does so for the one who makes it. -/
theorem asked (orderly : hall.Orderly holder) (caller : Caller) (exchange : Service.Exchange)
    (regular : Line.Regular ⟨caller, hall.world, exchange⟩)
    (next : ∀ item, Line.filed? ⟨caller, hall.world, exchange⟩ = some item →
      ∃ request, Next hall.world.store hall.log request item)
    (author : Line.filed? ⟨caller, hall.world, exchange⟩ ≠ none ∨
        Line.told? ⟨caller, hall.world, exchange⟩ ≠ none →
      ∃ n request, caller = .visitor n ∧ hall.visits[n]?.bind Visit.request? = some request)
    (present : ∀ n, caller = .visitor n → n < hall.visits.length)
    (log : later.log = hall.log ++ [⟨caller, hall.world, exchange⟩])
    (store : later.world.store = exchange.on hall.world.store)
    (lock : later.world.locked = holder'.isSome)
    (holds : ∀ m, caller ≠ .visitor m → (holder' = some m ↔ holder = some m))
    (quiet : ∀ m, caller ≠ .visitor m → holder = some m →
      Line.filed? ⟨caller, hall.world, exchange⟩ = none)
    (own : ∀ m (visit : Visit), caller = .visitor m → later.visits[m]? = some visit →
      visit.InOrder later.world.store later.log holder' m)
    (others : ∀ m : Nat, caller ≠ .visitor m → later.visits[m]? = hall.visits[m]?)
    (requests : ∀ m : Nat, later.visits[m]?.bind Visit.request? = hall.visits[m]?.bind Visit.request?)
    (length : later.visits.length = hall.visits.length)
    (worker : ∀ task, later.world.worker = .live task → task.Tame later.world.store) :
    later.Orderly holder' where
  lock := lock
  holding m holding := by
    rw [length]
    by_cases same : caller = .visitor m
    · exact present m same
    · exact orderly.holding m ((holds m same).1 holding)
  sound := by
    rw [log, store]
    exact orderly.sound.append regular next
  visits m visit found := by
    by_cases same : caller = .visitor m
    · exact own m visit same found
    · rw [log, store]
      rw [others m same] at found
      exact (orderly.visits m visit found).append regular same (holds m same) (quiet m same)
  worker := worker
  callers line there n called := by
    rw [log] at there
    rw [length]
    rcases List.mem_append.1 there with before | last
    · exact orderly.callers line before n called
    · cases List.mem_singleton.1 last
      exact present n called
  authors line there acted := by
    rw [log] at there
    simp only [requests]
    rcases List.mem_append.1 there with before | last
    · exact orderly.authors line before acted
    · cases List.mem_singleton.1 last
      exact author (acted.imp Option.isSome_iff_ne_none.1 Option.isSome_iff_ne_none.1)

/-- A hall stays in order where nobody makes a request. -/
theorem still (orderly : hall.Orderly holder) (log : later.log = hall.log)
    (store : later.world.store = hall.world.store) (lock : later.world.locked = hall.world.locked)
    (visits : ∀ m (visit : Visit), later.visits[m]? = some visit →
      hall.visits[m]? = some visit ∨ visit.InOrder hall.world.store hall.log holder m)
    (requests : ∀ (m : Nat) request, hall.visits[m]?.bind Visit.request? = some request →
      later.visits[m]?.bind Visit.request? = some request)
    (length : hall.visits.length ≤ later.visits.length)
    (worker : ∀ task, later.world.worker = .live task → task.Tame hall.world.store) :
    later.Orderly holder where
  lock := lock.trans orderly.lock
  holding m holding := Nat.lt_of_lt_of_le (orderly.holding m holding) length
  sound := by
    rw [log, store]
    exact orderly.sound
  visits m visit found := by
    rw [log, store]
    exact (visits m visit found).elim (orderly.visits m visit) id
  worker := by
    rw [store]
    exact worker
  callers line there n called := by
    rw [log] at there
    exact Nat.lt_of_lt_of_le (orderly.callers line there n called) length
  authors line there acted := by
    rw [log] at there
    obtain ⟨n, request, called, asked⟩ := orderly.authors line there acted
    exact ⟨n, request, called, requests n request asked⟩

end Hall.Orderly

theorem Task.Tame.next {σ α : Type} {task : Task σ α} {world : World} {request : Service.Request}
    {answer : request.Answer} {next : request.Answer → Program Service (Next σ α)}
    (tame : task.Tame world.store) (asks : task.program = .ask request next)
    (possible : Service.Exchange.Possible world.store ⟨request, answer⟩) (caller : Hall.Caller)
    (since : Nat) :
    let line : Hall.Line := ⟨caller, world, ⟨request, answer⟩⟩
    line.Regular ∧ line.filed? = none ∧ line.told? = none ∧
      Service.Exchange.locks world.locked ⟨request, answer⟩ = world.locked ∧
      Task.Tame { task with since, program := next answer } line.after := by
  obtain ⟨⟨seen, abides, present⟩, round⟩ := tame
  rw [asks] at abides
  obtain ⟨seen', tames, later⟩ := abides world.store answer possible
  obtain ⟨regular, unfiled, untold, present'⟩ :=
    Hall.regular_of_tames caller tames present possible
  refine ⟨regular, unfiled, untold, ?_, ⟨⟨seen', later, present'⟩, round⟩⟩
  have gentle := tames.1
  cases request with
  | lock | unlock => exact gentle.elim
  | _ => rfl

namespace Queue

/-- The worker adds nothing. -/
theorem abides_workerRound (skip : Bool) (state : Unit) :
    (workerRound skip state).Abides Tames (fun _ _ => True) none := by
  intro store answer _
  refine ⟨_, ⟨trivial, rfl⟩, ?_⟩
  cases answer with
  | none => trivial
  | some index => exact (Processor.tame_processIndex skip index).abides fun _ _ => trivial

/-- A run adds nothing. -/
theorem abides_runRound (options : Options) (stage : RunStage) :
    (runRound options stage).Abides Tames (fun _ _ => True) none := by
  cases stage with
  | claiming =>
    intro store answer _
    refine ⟨_, ⟨trivial, rfl⟩, ?_⟩
    cases answer <;> trivial
  | resuming resume =>
    refine (Resume.tame_round options.skipProcessing resume).abides fun next seen => ?_
    rcases next with resume | error | ⟨⟩
    · trivial
    · exact fun store answer _ => ⟨_, ⟨trivial, rfl⟩, trivial⟩
    · dsimp only
      split
      · trivial
      · intro store answer _
        refine ⟨_, ⟨trivial, rfl⟩, ?_⟩
        cases answer <;> trivial

/-- Closing a queue adds nothing. -/
theorem abides_close : close.run.Abides Tames (fun _ _ => True) none := by
  refine fun _ _ _ => ⟨_, ⟨trivial, rfl⟩, fun _ held _ => ⟨_, ⟨trivial, rfl⟩, ?_⟩⟩
  cases held with
  | false => exact fun _ _ _ => ⟨_, ⟨trivial, rfl⟩, trivial⟩
  | true => exact fun _ _ _ => ⟨_, ⟨trivial, rfl⟩, fun _ _ _ => ⟨_, ⟨trivial, rfl⟩, trivial⟩⟩

end Queue

theorem World.tame_newWorker (world : World) (store : Store) : world.newWorker.Tame store :=
  ⟨⟨none, Queue.abides_workerRound _ (), fun _ absent => by cases absent⟩, Queue.abides_workerRound _⟩

/-- The worker stays one that adds nothing, or was just started. -/
theorem World.Answers.tame_worker {chance : Chance} {since : Nat} {world after : World}
    {exchange : Service.Exchange} (answers : Answers chance since world exchange after)
    (tame : ∀ task, world.worker = .live task → task.Tame after.store) (task : Task Unit Unit)
    (live : after.worker = .live task) : task.Tame after.store := by
  rcases answers.worker with same | ⟨_, _, started⟩
  · exact tame task (same.symm.trans live)
  · cases started.symm.trans live
    exact world.tame_newWorker _

namespace Hall.Orderly

variable {hall : Hall} {holder : Option Nat} {n : Nat} {σ α : Type}

theorem enter_eq {visit other : Visit} {m : Nat}
    (found : (hall.enter visit).visits[m]? = some other) :
    (m = hall.visits.length ∧ other = visit) ∨ hall.visits[m]? = some other := by
  by_cases old : m < hall.visits.length
  · exact .inr ((List.getElem?_append_left old).symm.trans found)
  · have last : m = hall.visits.length := by
      have bound := (List.getElem?_eq_some_iff.1 found).1
      rw [show (hall.enter visit).visits.length = hall.visits.length + 1 from
        List.length_append] at bound
      omega
    subst last
    cases (List.getElem?_concat_length ..).symm.trans found
    exact .inl ⟨rfl, rfl⟩

/-- A visitor comes in. -/
theorem enter (orderly : hall.Orderly holder) {visit : Visit}
    (inOrder : linesOf hall.log hall.visits.length = [] → holder ≠ some hall.visits.length →
      visit.InOrder hall.world.store hall.log holder hall.visits.length) :
    (hall.enter visit).Orderly holder := by
  refine orderly.still rfl rfl rfl (fun m other found => ?_) (fun m request asked => ?_) ?_
    orderly.worker
  · rcases enter_eq found with ⟨rfl, rfl⟩ | before
    · refine .inr (inOrder (List.filter_eq_nil_iff.2 fun line there called => ?_) fun holding => ?_)
      · exact absurd (orderly.callers line there _ (of_decide_eq_true called)) (Nat.lt_irrefl _)
      · exact absurd (orderly.holding _ holding) (Nat.lt_irrefl _)
    · exact .inl before
  · obtain ⟨other, found, same⟩ := Option.bind_eq_some_iff.1 asked
    have old := (List.getElem?_eq_some_iff.1 found).1
    rw [show (hall.enter visit).visits = hall.visits ++ [visit] from rfl,
      List.getElem?_append_left old]
    exact asked
  · exact (List.length_append).symm ▸ Nat.le_add_right _ _

theorem requests_set {visits : List Visit} {visit other : Visit}
    (found : visits[n]? = some visit) (same : other.request? = visit.request?) (m : Nat) :
    (visits.set n other)[m]?.bind Visit.request? = visits[m]?.bind Visit.request? := by
  rw [List.getElem?_set]
  split
  · rename_i eq
    subst eq
    rw [found, if_pos (List.getElem?_eq_some_iff.1 found).1]
    exact same
  · rfl

theorem set_eq {visits : List Visit} {visit other : Visit} {m : Nat}
    (found : (visits.set n visit)[m]? = some other) :
    (m = n ∧ other = visit) ∨ (m ≠ n ∧ visits[m]? = some other) := by
  rw [List.getElem?_set] at found
  split at found
  · rename_i same
    split at found
    · exact .inl ⟨same.symm, (Option.some.inj found).symm⟩
    · cases found
  · exact .inr ⟨Ne.symm ‹_›, found⟩

/-- A visitor goes on without a request. -/
theorem set (orderly : hall.Orderly holder) {visit other : Visit}
    (found : hall.visits[n]? = some visit) (same : other.request? = visit.request?)
    (inOrder : other.InOrder hall.world.store hall.log holder n) :
    Hall.Orderly { hall with visits := hall.visits.set n other } holder := by
  refine orderly.still rfl rfl rfl (fun m visit' found' => ?_) (fun m request asked => ?_) ?_
    orderly.worker
  · rcases set_eq found' with ⟨rfl, rfl⟩ | ⟨_, before⟩
    · exact .inr inOrder
    · exact .inl before
  · exact (requests_set found same m).trans asked
  · exact Nat.le_of_eq (List.length_set).symm

/-- The turn of a visitor who adds a request. -/
theorem turn_adding (orderly : hall.Orderly holder) (chance : Chance) {request : ItemRequest}
    {task : Task Empty (Except QueueError Int64)}
    (found : hall.visits[n]? = some (.adding request task)) :
    ∃ holder', (hall.advance n (hall.world.act chance task) (.adding request)
      (.added request)).Orderly holder' := by
  obtain ⟨fits, stage, abides, holds, known, records⟩ := orderly.visits n _ found
  have acts := hall.world.acts chance task
  generalize hall.world.act chance task = act at acts
  cases acts with
  | finished ends =>
    rw [ends] at abides
    obtain ⟨answer, same, answered⟩ := abides
    cases same
    refine ⟨holder, orderly.set found rfl ⟨stage, answered, fun holding => ?_, known, records⟩⟩
    cases (holds.2 holding).symm.trans (Adding.holds_of_answer answered)
  | @began state => exact state.elim
  | @asked asked next answer after asks answers =>
    rw [asks] at abides
    obtain ⟨stage', adds, later⟩ := abides hall.world.store answer answers.possible
    obtain ⟨regular, next', known', records'⟩ := adds.turned fits answers orderly.sound known records
    obtain ⟨holder', lock, holds', others⟩ := adds.locks answers orderly.lock holds
    have apart : ∀ m, Caller.visitor n ≠ .visitor m → m ≠ n := fun m other same =>
      other (congrArg Caller.visitor same.symm)
    refine ⟨holder', orderly.asked (.visitor n) ⟨asked, answer⟩ regular
      (fun item files => ⟨request, next' item files⟩) (fun _ => ⟨n, request, rfl, ?_⟩)
      (fun m same => ?_) rfl answers.store lock (fun m other => others m (apart m other))
      (fun m other => adds.quiet holds (apart m other)) (fun m visit same found' => ?_)
      (fun m other => ?_) (requests_set found rfl) List.length_set ?_⟩
    · rw [found]
      rfl
    · cases same
      exact (List.getElem?_eq_some_iff.1 found).1
    · cases same
      rw [show Hall.visits _ = hall.visits.set n _ from rfl, List.getElem?_set_self
        (List.getElem?_eq_some_iff.1 found).1] at found'
      cases found'
      refine ⟨fits, stage', later, holds', ?_, records'⟩
      change Adding.Known request after.store _ n stage'
      rw [answers.store]
      exact known'
    · exact List.getElem?_set_ne (apart m other).symm
    · refine answers.tame_worker fun task live => ?_
      rw [answers.store]
      exact (orderly.worker task live).append regular
  | waits => exact ⟨holder, orderly⟩

/-- The turn of a visitor who adds nothing. -/
theorem turn_tame (orderly : hall.Orderly holder) (chance : Chance) {task : Task σ α}
    {goOn : Task σ α → Visit} {leave : α → Visit} (found : hall.visits[n]? = some (goOn task))
    (goes : ∀ store log task, (goOn task).InOrder store log holder n ↔
      task.Tame store ∧ holder ≠ some n)
    (leaves : ∀ store log value, (leave value).InOrder store log holder n ↔ holder ≠ some n)
    (asks : (∀ task, (goOn task).request? = none) ∧ ∀ value, (leave value).request? = none) :
    (hall.advance n (hall.world.act chance task) goOn leave).Orderly holder := by
  obtain ⟨tame, free⟩ := (goes _ _ _).1 (orderly.visits n _ found)
  have acts := hall.world.acts chance task
  generalize hall.world.act chance task = act at acts
  cases acts with
  | finished ends =>
    exact orderly.set found ((asks.2 _).trans (asks.1 _).symm) ((leaves _ _ _).2 free)
  | @began state =>
    refine orderly.set found ((asks.1 _).trans (asks.1 _).symm)
      ((goes _ _ _).2 ⟨⟨⟨none, ?_⟩, tame.round⟩, free⟩)
    exact ⟨tame.round state, fun _ absent => by cases absent⟩
  | @asked asked next answer after asked' answers =>
    obtain ⟨regular, unfiled, untold, lock, tame'⟩ :=
      tame.next asked' answers.possible (.visitor n) hall.world.clock
    refine orderly.asked (.visitor n) ⟨asked, answer⟩ regular
      (fun item files => ?_) (fun acted => ?_)
      (fun m same => ?_) rfl answers.store ((answers.locked.trans lock).trans orderly.lock)
      (fun _ _ => Iff.rfl) (fun _ _ _ => unfiled) (fun m visit same found' => ?_)
      (fun m other => ?_) (requests_set found ((asks.1 _).trans (asks.1 _).symm)) List.length_set ?_
    · cases unfiled.symm.trans files
    · exact acted.elim (absurd unfiled) (absurd untold)
    · cases same
      exact (List.getElem?_eq_some_iff.1 found).1
    · cases same
      rw [show Hall.visits _ = hall.visits.set n _ from rfl, List.getElem?_set_self
        (List.getElem?_eq_some_iff.1 found).1] at found'
      cases found'
      refine (goes _ _ _).2 ⟨?_, free⟩
      change Task.Tame _ after.store
      rw [answers.store]
      exact tame'
    · exact List.getElem?_set_ne fun same => other (congrArg Caller.visitor same)
    · refine answers.tame_worker fun task live => ?_
      rw [answers.store]
      exact (orderly.worker task live).append regular
  | waits => exact orderly

/-- The turn of the worker. -/
theorem labour (orderly : hall.Orderly holder) (chance : Chance) {task : Task Unit Unit}
    (live : hall.world.worker = .live task) :
    (hall.labour (hall.world.act chance task)).Orderly holder := by
  have tame := orderly.worker task live
  have acts := hall.world.acts chance task
  generalize hall.world.act chance task = act at acts
  cases acts with
  | finished ends =>
    refine orderly.still rfl rfl rfl (fun _ _ => .inl) (fun _ _ => id) (Nat.le_refl _) fun task live => ?_
    cases live
  | @began state =>
    refine orderly.still rfl rfl rfl (fun _ _ => .inl) (fun _ _ => id) (Nat.le_refl _) fun task live => ?_
    cases live
    exact ⟨⟨none, tame.round state, fun _ absent => by cases absent⟩, tame.round⟩
  | @asked asked next answer after asks answers =>
    obtain ⟨regular, unfiled, untold, lock, tame'⟩ :=
      tame.next asks answers.possible (.worker hall.hand) hall.world.clock
    refine orderly.asked (.worker hall.hand) ⟨asked, answer⟩ regular
      (fun item files => ?_) (fun acted => ?_) (fun m same => ?_) rfl answers.store
      ((answers.locked.trans lock).trans orderly.lock) (fun _ _ => Iff.rfl) (fun _ _ _ => unfiled)
      (fun m visit same => ?_) (fun _ _ => rfl) (fun _ => rfl) rfl fun task live => ?_
    · cases unfiled.symm.trans files
    · exact acted.elim (absurd unfiled) (absurd untold)
    · cases same
    · cases same
    · cases live
      change Task.Tame _ after.store
      rw [answers.store]
      exact tame'
  | waits => exact orderly

end Hall.Orderly

namespace Hall

theorem Records.nothing {log : List Line} {n : Nat} (none : linesOf log n = []) :
    Records log n .none .none := by
  constructor <;> rw [none] <;> rfl

/-- A task of one program that adds nothing. -/
theorem tame_once {α : Type} {program : Program Service α}
    (abides : program.Abides Tames (fun _ _ => True) none) (clock : Nat) (store : Store) :
    (Task.once clock program).Tame store where
  program := ⟨none, abides.bind fun _ _ _ => trivial, fun _ absent => by cases absent⟩
  round state := state.elim

/-- Whatever happens next, a hall stays in order. -/
theorem orderly_step {hall : Hall} {holder : Option Nat} (orderly : hall.Orderly holder)
    (event : Event) : ∃ holder', (hall.step event).Orderly holder' := by
  cases event with
  | add request fits =>
    refine ⟨holder, orderly.enter fun none free => ⟨fits, .drawing, ?_, ?_, trivial, .nothing none⟩⟩
    · exact (Queue.abides_add request).bind fun answer stage answered => ⟨answer, rfl, answered⟩
    · exact ⟨nofun, fun holding => absurd holding free⟩
  | run =>
    refine ⟨holder, orderly.enter fun _ free => ⟨⟨⟨none, ?_, fun _ absent => ?_⟩, ?_⟩, free⟩⟩
    · exact Queue.abides_runRound hall.world.options .claiming
    · cases absent
    · exact Queue.abides_runRound hall.world.options
  | close => exact ⟨holder, orderly.enter fun _ free => ⟨tame_once Queue.abides_close _ _, free⟩⟩
  | turn n chance =>
    simp only [step]
    split
    · exact orderly.turn_adding chance ‹_›
    · exact ⟨holder, orderly.turn_tame chance ‹_› (fun _ _ _ => Iff.rfl) (fun _ _ _ => Iff.rfl)
        ⟨fun _ => rfl, fun _ => rfl⟩⟩
    · exact ⟨holder, orderly.turn_tame chance ‹_› (fun _ _ _ => Iff.rfl) (fun _ _ _ => Iff.rfl)
        ⟨fun _ => rfl, fun _ => rfl⟩⟩
    all_goals exact ⟨holder, orderly⟩
  | work chance =>
    simp only [step]
    split
    · exact ⟨holder, orderly.labour chance ‹_›⟩
    all_goals exact ⟨holder, orderly⟩
  | wait duration =>
    exact ⟨holder, orderly.still rfl rfl rfl (fun _ _ => .inl) (fun _ _ => id) (Nat.le_refl _)
      orderly.worker⟩

theorem run_concat (world : World) (events : List Event) (event : Event) :
    run world (events ++ [event]) = (run world events).step event :=
  List.foldl_concat ..

/-- A hall without visitors is in order, where nobody assigns an index and there is no worker. -/
theorem orderly_start {world : World} (unlocked : world.locked = false)
    (absent : world.worker = .absent) : (start world).Orderly none where
  lock := unlocked
  holding _ absent := by cases absent
  sound := .nothing _
  visits _ _ found := by cases found
  worker _ live := by cases absent.symm.trans live
  callers _ there := by cases there
  authors _ there := by cases there

/-- At any time the hall of a queue that was just built is in order. -/
theorem orderly_run {world : World} (unlocked : world.locked = false)
    (absent : world.worker = .absent) (events : List Event) :
    ∃ holder, (run world events).Orderly holder := by
  induction events using List.reverseRecOn with
  | nil => exact ⟨none, orderly_start unlocked absent⟩
  | append_singleton events event ih =>
    obtain ⟨holder, orderly⟩ := ih
    rw [run_concat]
    exact orderly_step orderly event

/-- The requests that lead from one store to another. -/
inductive Leads (first : Store) : List Line → Store → Prop where
  | stay : Leads first [] first
  | next {log line} : Leads first log line.before.store → Leads first (log ++ [line]) line.after

/-- Whatever happens next, at most one request is made, and only by it the store changes. -/
theorem step_log (hall : Hall) (event : Event) :
    ((hall.step event).log = hall.log ∧ (hall.step event).world.store = hall.world.store) ∨
      ∃ caller exchange, (hall.step event).log = hall.log ++ [⟨caller, hall.world, exchange⟩] ∧
        (hall.step event).world.store = exchange.on hall.world.store := by
  have turns : ∀ {σ α : Type} (n : Nat) (chance : Chance) (task : Task σ α) (goOn : Task σ α → Visit)
      (leave : α → Visit), let later := hall.advance n (hall.world.act chance task) goOn leave
      (later.log = hall.log ∧ later.world.store = hall.world.store) ∨
        ∃ caller exchange, later.log = hall.log ++ [⟨caller, hall.world, exchange⟩] ∧
          later.world.store = exchange.on hall.world.store := by
    intro σ α n chance task goOn leave
    have acts := hall.world.acts chance task
    generalize hall.world.act chance task = act at acts
    cases acts with
    | asked _ answers => exact .inr ⟨_, _, rfl, answers.store⟩
    | _ => exact .inl ⟨rfl, rfl⟩
  cases event with
  | turn n chance =>
    simp only [step]
    split
    · exact turns ..
    · exact turns ..
    · exact turns ..
    all_goals exact .inl ⟨rfl, rfl⟩
  | work chance =>
    simp only [step]
    split
    · rename_i task live
      have acts := hall.world.acts chance task
      generalize hall.world.act chance task = act at acts
      cases acts with
      | asked _ answers => exact .inr ⟨_, _, rfl, answers.store⟩
      | _ => exact .inl ⟨rfl, rfl⟩
    all_goals exact .inl ⟨rfl, rfl⟩
  | _ => exact .inl ⟨rfl, rfl⟩

theorem leads_run (world : World) (events : List Event) :
    Leads world.store (run world events).log (run world events).world.store := by
  induction events using List.reverseRecOn with
  | nil => exact .stay
  | append_singleton events event ih =>
    rw [run_concat]
    rcases (run world events).step_log event with ⟨log, store⟩ | ⟨caller, exchange, log, store⟩
    · rw [log, store]
      exact ih
    · rw [log, store]
      exact .next ih

end Hall

end Registrar
