import Registrar.Proofs.Hall.WorkerDismissal

/-!
How far the calls of a queue have come, with what each of them has been answered so far. `RunSteps` lists
the requests of a run with the status that each answer leads to, and `Shuts` those of a call that closes the
queue; `Queue.abides_firstRound`, `Queue.abides_scanRound` and `Queue.abides_shutting` say that they make no
other. `RunStatus.Answers` is what a run answers in the end, and `RunStatus.Told` what it has been told by
then. `Service.Request.awaits` tells the requests at which a call gives way to others.
-/

namespace Registrar

open Item (Status)
open Node (Leaving)

/-- Whether others may have their turns before the request is answered. The rest is done in one go. -/
def Service.Request.awaits : Service.Request → Bool
  | .work (.store _) | .work (.gateway _) | .lock | .announce _ | .receive | .awaitWorker _
  | .pause _ => true
  | .work .now | .drawSecret | .unlock | .claimRun | .releaseRun | .startWorker | .signalStop
  | .takeWorker => false

/-- Every request may have an answer. -/
theorem Service.Request.answerable (request : Service.Request) (store : Store) :
    ∃ answer, Service.Exchange.Possible store ⟨request, answer⟩ := by
  cases request with
  | work request =>
    cases request with
    | store request => exact ⟨.ok (store.serve request).1, .inl rfl⟩
    | gateway request => exact ⟨.error (.connection ""), trivial⟩
    | now => exact ⟨(0 : UInt64), trivial⟩
  | drawSecret => exact ⟨.error "", trivial⟩
  | announce => exact ⟨.error .laneClosed, trivial⟩
  | receive => exact ⟨none, trivial⟩
  | claimRun | startWorker | takeWorker | awaitWorker => exact ⟨true, trivial⟩
  | lock | unlock | releaseRun | signalStop | pause => exact ⟨(), trivial⟩

/-- A request that is asked for takes the mark somewhere. -/
theorem Program.Abides.move {σ α : Type} {move : σ → Service.Exchange → σ → Prop} {fits : α → σ → Prop}
    {request : Service.Request} {next : request.Answer → Program Service α} {mark : σ}
    (abides : (Program.ask (I := Service) request next).Abides move fits mark) :
    ∃ answer mark', move mark ⟨request, answer⟩ mark' := by
  obtain ⟨answer, possible⟩ := request.answerable .empty
  obtain ⟨mark', moved, -⟩ := abides .empty answer possible
  exact ⟨answer, mark', moved⟩

/-- How far a run has come. -/
inductive RunStatus where
  | fresh
  /-- It has learnt that the queue runs already. -/
  | refused
  /-- It has claimed the queue, and so many searches of its scan were answered. -/
  | scanning (searches : Nat)
  /-- Its scan has failed. -/
  | failing (fault : StoreError)
  /-- It has given the queue up again, and is about to answer. -/
  | failed (fault : StoreError)
  /-- It has answered after it had given the queue up. -/
  | left (fault : StoreError)
  /-- It has started the worker. -/
  | started
  /-- It has learnt that a worker was started before. -/
  | barred

namespace RunStatus

def claimed (held : Bool) : RunStatus := if held then .refused else .scanning 0

def searched (searches : Nat) : Except StoreError (List Store.Entry) → RunStatus
  | .error fault => .failing fault
  | .ok _ => .scanning (searches + 1)

def hired (started : Bool) : RunStatus := if started then .started else .barred

/-- The status of a run that has answered. -/
def leave : RunStatus → RunStatus
  | .failed fault => .left fault
  | status => status

/-- Whether the queue is claimed by the run. -/
def holds : RunStatus → Bool
  | .scanning _ | .failing _ | .started | .barred => true
  | .fresh | .refused | .failed _ | .left _ => false

theorem holds_leave (status : RunStatus) : status.leave.holds = status.holds := by
  cases status <;> rfl

/-- What a run answers. A scan searches in each bucket at least once. -/
inductive Answers (options : Queue.Options) : Except QueueError Unit → RunStatus → Prop where
  | refused : Answers options (.error .alreadyRunning) .refused
  | barred : Answers options (.error .alreadyRunning) .barred
  | failed {fault} : Answers options (.error (.store fault)) (.failed fault)
  | spared {searches} : options.skipBackground = true → Status.resumeBuckets.length ≤ searches →
      Answers options (.ok ()) (.scanning searches)
  | started : Answers options (.ok ()) .started

/-- What a round of a run comes to. -/
def Ends (options : Queue.Options) : Next Queue.RunStage (Except QueueError Unit) → RunStatus → Prop
  | .again .claiming, _ => False
  | .again (.resuming resume), status => ∃ searches, status = .scanning searches ∧
      Status.resumeBuckets.length ≤ searches + resume.buckets.length
  | .finished answer, status => status.Answers options answer

end RunStatus

/-- A search of a scan that was answered. -/
def Service.Exchange.searched : Service.Exchange → Bool
  | ⟨.work (.store (.scan _)), .ok _⟩ => true
  | _ => false

/-- The requests of a run. -/
inductive RunSteps (options : Queue.Options) : RunStatus → Service.Exchange → RunStatus → Prop where
  | claim {held : Bool} : RunSteps options .fresh ⟨.claimRun, held⟩ (.claimed held)
  | search {searches} {answer : Except StoreError (List Store.Entry)} :
      RunSteps options (.scanning searches) ⟨.work (.store (.scan Items.keyStart)), answer⟩
        (.searched searches answer)
  | serve {searches stage exchange stage'} : Conducts options.skipProcessing stage exchange stage' →
      RunSteps options (.scanning searches) exchange.served (.scanning searches)
  | release {fault} : RunSteps options (.failing fault) ⟨.releaseRun, ()⟩ (.failed fault)
  | hire {searches} {started : Bool} : options.skipBackground = false →
      Status.resumeBuckets.length ≤ searches →
      RunSteps options (.scanning searches) ⟨.startWorker, started⟩ (.hired started)

/-- What a run has been told, request by request. -/
def RunStatus.Told (own : List Service.Exchange) : RunStatus → Prop
  | .fresh => own = []
  | .refused => own.head? = some ⟨.claimRun, true⟩
  | .scanning searches =>
    own.head? = some ⟨.claimRun, false⟩ ∧ own.countP (·.searched) = searches
  | .failing fault | .failed fault | .left fault =>
    own.head? = some ⟨.claimRun, false⟩ ∧ ⟨.work (.store (.scan Items.keyStart)), .error fault⟩ ∈ own
  | .started =>
    own.head? = some ⟨.claimRun, false⟩ ∧ Status.resumeBuckets.length ≤ own.countP (·.searched) ∧
      ⟨.startWorker, true⟩ ∈ own
  | .barred => ⟨.startWorker, false⟩ ∈ own

/-- The requests of a call that closes the queue, with the place that each answer leads to. -/
inductive Shuts : Leaving → Service.Exchange → Leaving → Prop where
  | signal : Shuts .signalling ⟨.signalStop, ()⟩ .taking
  | lead {held : Bool} : Shuts .taking ⟨.takeWorker, held⟩ (if held then .awaiting else .flushing)
  | await {stopped : Bool} : Shuts .awaiting ⟨.awaitWorker none, stopped⟩ .flushing
  | flush {answer : Except StoreError Unit} : Shuts .flushing ⟨.work (.store .flush), answer⟩ .gone

section

variable {options : Queue.Options} {status status' : RunStatus} {exchange : Service.Exchange}
  {own : List Service.Exchange} {answer : Except QueueError Unit}

theorem Conducts.unsearched {skip : Bool} {stage stage' : Stage} {exchange : Exchange}
    (conducts : Conducts skip stage exchange stage') : exchange.served.searched = false := by
  cases conducts <;> rfl

theorem RunStatus.Told.nonempty (told : status.Told own) (begun : status ≠ .fresh) : own ≠ [] := by
  rintro rfl
  cases status with
  | fresh => exact begun rfl
  | refused | barred => cases told
  | scanning | failing | failed | left | started => cases told.1

theorem RunStatus.Told.leave (told : status.Told own) : status.leave.Told own := by
  cases status <;> exact told

theorem RunStatus.leave_ne_failed (fault : StoreError) : status.leave ≠ .failed fault := by
  cases status <;> nofun

/-- A run gives the queue up by a request of its own. -/
theorem RunSteps.release_of_failed {fault : StoreError}
    (steps : RunSteps options status exchange (.failed fault)) : exchange = ⟨.releaseRun, ()⟩ := by
  generalize arrived : RunStatus.failed fault = status' at steps
  cases steps with
  | release => rfl
  | @claim held => cases held <;> cases arrived
  | @search searches answer => cases answer <;> cases arrived
  | @hire searches started => cases started <;> cases arrived
  | serve => cases arrived

theorem RunSteps.told (steps : RunSteps options status exchange status') (told : status.Told own) :
    status'.Told (own ++ [exchange]) := by
  have first : own.head? = some ⟨.claimRun, false⟩ →
      (own ++ [exchange]).head? = some ⟨.claimRun, false⟩ := by
    intro head
    rw [List.head?_append, head]
    rfl
  cases steps with
  | @claim held =>
    obtain rfl : own = [] := told
    cases held with
    | true => exact rfl
    | false => exact ⟨rfl, rfl⟩
  | @search searches answer =>
    obtain ⟨head, counted⟩ := told
    cases answer with
    | error fault => exact ⟨first head, List.mem_append_right _ List.mem_cons_self⟩
    | ok entries =>
      refine ⟨first head, ?_⟩
      rw [List.countP_append, counted]
      rfl
  | serve conducts =>
    obtain ⟨head, counted⟩ := told
    refine ⟨first head, ?_⟩
    rw [List.countP_append, counted, List.countP_singleton, conducts.unsearched]
    rfl
  | release => exact ⟨first told.1, List.mem_append_left _ told.2⟩
  | @hire searches started _ enough =>
    obtain ⟨head, rfl⟩ := told
    have last : ∀ {exchange : Service.Exchange}, exchange ∈ own ++ [exchange] :=
      List.mem_append_right _ List.mem_cons_self
    cases started with
    | true =>
      refine ⟨first head, ?_, last⟩
      rw [List.countP_append]
      exact Nat.le_add_right_of_le enough
    | false => exact last

end

namespace Queue

variable {options : Options}

/-- A run that claims the queue, or learns that it runs already. -/
theorem abides_firstRound :
    (runRound options .claiming).Abides (RunSteps options) (RunStatus.Ends options) .fresh := by
  intro store (held : Bool) _
  refine ⟨_, .claim, ?_⟩
  cases held with
  | true => exact .refused
  | false => exact ⟨0, rfl, Nat.le_add_left _ _⟩

/-- A round of a run's scan. -/
theorem abides_scanRound {resume : Resume} {searches : Nat}
    (enough : Status.resumeBuckets.length ≤ searches + resume.buckets.length) :
    (runRound options (.resuming resume)).Abides (RunSteps options) (RunStatus.Ends options)
      (.scanning searches) := by
  obtain ⟨buckets, tried⟩ := resume
  cases buckets with
  | nil =>
    show Program.Abides _ _ (if options.skipBackground then _ else _) _
    cases skips : options.skipBackground with
    | true => exact .spared skips enough
    | false =>
      intro store (started : Bool) _
      refine ⟨_, .hire skips enough, ?_⟩
      cases started with
      | true => exact .started
      | false => exact .barred
  | cons bucket later =>
    have round : runRound options (.resuming ⟨bucket :: later, tried⟩) =
        (Service.work (Resume.round options.skipProcessing ⟨bucket :: later, tried⟩)).bind _ := rfl
    rw [List.length_cons] at enough
    rw [round, round_eq]
    intro store answer _
    refine ⟨_, .search, ?_⟩
    rcases answer with fault | entries
    · exact fun _ _ _ => ⟨_, .release, .failed⟩
    · cases picked : Resume.pick tried (Items.select bucket entries) with
      | none =>
        simp only [RunStatus.searched, Program.bind, picked]
        exact ⟨_, rfl, by dsimp only; omega⟩
      | some item =>
        have heeds : ((Processor.process options.skipProcessing item).run.bind fun _ =>
              Program.done (.again ⟨bucket :: later, item.index :: tried⟩)).Heeds .wild
            (Conduct options.skipProcessing)
            (fun (next : Next Resume (Except QueueError Unit)) _ =>
              next = .again ⟨bucket :: later, item.index :: tried⟩)
            (.held item none) :=
          (Processor.heeds_conclude item).bind fun _ _ _ => rfl
        simp only [RunStatus.searched, Program.bind, picked]
        refine Program.Heeds.abides heeds (fun _ => RunStatus.scanning (searches + 1))
          (fun _ _ _ => .serve) fun next stage ends => ?_
        subst ends
        exact ⟨_, rfl, by dsimp only [List.length_cons]; omega⟩

/-- Closing a queue. -/
theorem abides_shutting :
    close.run.Abides Shuts (fun _ leaving => leaving = .gone) .signalling := by
  intro _ _ _
  refine ⟨_, .signal, ?_⟩
  intro _ (held : Bool) _
  refine ⟨_, .lead, ?_⟩
  cases held with
  | false =>
    intro _ answer _
    exact ⟨_, .flush, by cases answer <;> rfl⟩
  | true =>
    intro _ stopped _
    refine ⟨_, .await, ?_⟩
    intro _ answer _
    exact ⟨_, .flush, by cases answer <;> rfl⟩

end Queue

end Registrar
