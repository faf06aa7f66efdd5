import Registrar.Proofs.Hall.Turns

/-!
How far those have come in a hall who work on items: a visitor that runs the queue, and the worker. Each
request is listed with the stage that its answer leads to, as for adding requests; `Queue.abides_claiming`,
`Queue.abides_resuming`, `Queue.abides_working` and `Queue.abides_closing` say that the calls of a queue
make no other.
-/

namespace Registrar

open Item (Status)

/-- Nothing more is done for the item: it is at rest, or the books have failed. -/
def Stage.Over (stage : Stage) : Prop :=
  stage = .idle ∨ ∃ final promise, stage = .held final promise ∧ final.status.isTerminal = true

theorem Processor.Concludes.over {result : Except QueueError Status} {stage : Stage}
    (concludes : Concludes result stage) : stage.Over := by
  cases result with
  | error error => exact .inl concludes
  | ok status =>
    obtain ⟨final, promise, held, rfl, terminal⟩ := concludes
    exact .inr ⟨final, promise, held, terminal⟩

/-- How far a run has come. -/
inductive Running where
  | claiming
  | scanning (resume : Resume)
  /-- It works on the item of an index, and goes on with a scan. -/
  | serving (resume : Resume) (index : Int64) (stage : Stage)
  | failing
  | leaving

namespace Running

def claimed (held : Bool) : Running := if held then .leaving else .scanning .start

def searched (bucket : Status) (later : List Status) (tried : List Int64) :
    Except StoreError (List Store.Entry) → Running
  | .error _ => .failing
  | .ok entries =>
    match Resume.pick tried (Items.select bucket entries) with
    | none => .scanning ⟨later, []⟩
    | some item => .serving ⟨bucket :: later, item.index :: tried⟩ item.index (.held item none)

/-- The run goes on with a scan. -/
def Leads (resume : Resume) (running : Running) : Prop :=
  running = .scanning resume ∨ ∃ index stage, running = .serving resume index stage ∧ stage.Over

/-- What a round of a run comes to. -/
def Ends : Next Queue.RunStage (Except QueueError Unit) → Running → Prop
  | .again .claiming, _ => False
  | .again (.resuming resume), running => running.Leads resume
  | .finished _, running => running = .leaving ∨ ∃ tried, running = .scanning ⟨[], tried⟩

end Running

/-- The requests of a run. -/
inductive Runs (skip : Bool) : Running → Service.Exchange → Running → Prop where
  | claim {held : Bool} : Runs skip .claiming ⟨.claimRun, held⟩ (.claimed held)
  | search {bucket later tried} {answer : Except StoreError (List Store.Entry)} :
      Runs skip (.scanning ⟨bucket :: later, tried⟩) ⟨.work (.store (.scan Items.keyStart)), answer⟩
        (.searched bucket later tried answer)
  | serve {resume index stage exchange stage'} : Conducts skip stage exchange stage' →
      Runs skip (.serving resume index stage) exchange.served (.serving resume index stage')
  | release : Runs skip .failing ⟨.releaseRun, ()⟩ .leaving
  | hire {tried} {answer : Bool} : Runs skip (.scanning ⟨[], tried⟩) ⟨.startWorker, answer⟩ .leaving

/-- How far the worker has come. -/
inductive Working where
  | resting
  | seeking (index : Int64)
  | serving (index : Int64) (stage : Stage)
  /-- There is no item that it could work on. -/
  | missing
  | leaving

namespace Working

def received : Option Int64 → Working
  | none => .leaving
  | some index => .seeking index

def fetched (index : Int64) : Except StoreError (Option Bytes) → Working
  | .ok (some record) =>
    match Items.decode (Items.key index) record with
    | .ok item => .serving index (.held item none)
    | .error _ => .missing
  | .ok none | .error _ => .missing

/-- What a round of the worker comes to. -/
def Ends : Next Unit Unit → Working → Prop
  | .again (), working =>
    working = .missing ∨ ∃ index stage, working = .serving index stage ∧ stage.Over
  | .finished (), working => working = .leaving

end Working

/-- The requests of the worker. -/
inductive Works (skip : Bool) : Working → Service.Exchange → Working → Prop where
  | receive {answer : Option Int64} : Works skip .resting ⟨.receive, answer⟩ (.received answer)
  | get {index} {answer : Except StoreError (Option Bytes)} :
      Works skip (.seeking index) ⟨.work (.store (.get (Items.key index))), answer⟩
        (.fetched index answer)
  | serve {index stage exchange stage'} : Conducts skip stage exchange stage' →
      Works skip (.serving index stage) exchange.served (.serving index stage')

/-- The requests of a call that closes the queue. -/
def Closes (_ : Unit) (exchange : Service.Exchange) (_ : Unit) : Prop :=
  match exchange.request with
  | .signalStop | .takeWorker | .awaitWorker _ | .work (.store .flush) => True
  | _ => False

namespace Queue

/-- A run that has claimed the queue, or has learnt that it runs already. -/
theorem abides_claiming (options : Options) :
    (runRound options .claiming).Abides (Runs options.skipProcessing) Running.Ends .claiming := by
  intro store (held : Bool) _
  refine ⟨_, .claim, ?_⟩
  cases held with
  | true => exact .inl rfl
  | false => exact .inl rfl

/-- A round of a run's scan. -/
theorem abides_resuming (options : Options) (resume : Resume) :
    (runRound options (.resuming resume)).Abides (Runs options.skipProcessing) Running.Ends
      (.scanning resume) := by
  obtain ⟨buckets, tried⟩ := resume
  cases buckets with
  | nil =>
    show Program.Abides _ _ (if options.skipBackground then _ else _) _
    split
    · exact .inr ⟨tried, rfl⟩
    · intro store (started : Bool) _
      refine ⟨_, .hire, ?_⟩
      cases started <;> exact .inl rfl
  | cons bucket later =>
    have round : runRound options (.resuming ⟨bucket :: later, tried⟩) =
        (Service.work (Resume.round options.skipProcessing ⟨bucket :: later, tried⟩)).bind _ := rfl
    rw [round, round_eq]
    intro store answer _
    refine ⟨_, .search, ?_⟩
    rcases answer with error | entries
    · exact fun _ _ _ => ⟨_, .release, .inl rfl⟩
    · cases picked : Resume.pick tried (Items.select bucket entries) with
      | none =>
        simp only [Running.searched, Program.bind, picked]
        exact .inl rfl
      | some item =>
        have heeds : ((Processor.process options.skipProcessing item).run.bind fun _ =>
              Program.done (.again ⟨bucket :: later, item.index :: tried⟩)).Heeds .wild
            (Conduct options.skipProcessing)
            (fun (next : Next Resume (Except QueueError Unit)) stage =>
              next = .again ⟨bucket :: later, item.index :: tried⟩ ∧ stage.Over)
            (.held item none) :=
          (Processor.heeds_conclude item).bind fun _ _ concludes => ⟨rfl, concludes.over⟩
        simp only [Running.searched, Program.bind, picked]
        refine Program.Heeds.abides heeds
          (Running.serving ⟨bucket :: later, item.index :: tried⟩ item.index)
          (fun _ _ _ => .serve) fun next stage ends => ?_
        obtain ⟨rfl, ceased⟩ := ends
        exact .inr ⟨_, stage, rfl, ceased⟩

/-- A round of the worker. -/
theorem abides_working (skip : Bool) (state : Unit) :
    (workerRound skip state).Abides (Works skip) Working.Ends .resting := by
  intro store (answer : Option Int64) _
  refine ⟨_, .receive, ?_⟩
  cases answer with
  | none => exact rfl
  | some index =>
    have round : (do
        let _ ← Service.work (Processor.processIndex skip index).run
        return Next.again () : Program Service (Next Unit Unit)) =
      (Service.work (Processor.processIndex skip index).run).bind fun _ => .done (.again ()) := rfl
    show Program.Abides _ _ (do
        let _ ← Service.work (Processor.processIndex skip index).run
        return Next.again ()) _
    rw [round, Processor.run_processIndex]
    intro store answer _
    refine ⟨_, .get, ?_⟩
    rcases answer with error | _ | record
    · exact .inl rfl
    · exact .inl rfl
    · cases decoded : Items.decode (Items.key index) record with
      | error error =>
        simp only [Working.fetched, Program.bind, decoded]
        exact .inl rfl
      | ok item =>
        simp only [Working.fetched, Program.bind, decoded]
        have heeds : (Processor.process skip item).run.Heeds .wild (Conduct skip)
            Processor.Concludes (.held item none) := Processor.heeds_conclude item
        refine Program.Heeds.abides heeds (Working.serving index)
          (fun _ _ _ => .serve) fun next stage concludes => ?_
        exact .inr ⟨_, stage, rfl, concludes.over⟩

/-- Closing a queue. -/
theorem abides_closing : close.run.Abides Closes (fun _ _ => True) () := by
  refine fun _ _ _ => ⟨(), trivial, fun _ held _ => ⟨(), trivial, ?_⟩⟩
  cases held with
  | false => exact fun _ _ _ => ⟨(), trivial, trivial⟩
  | true => exact fun _ _ _ => ⟨(), trivial, fun _ _ _ => ⟨(), trivial, trivial⟩⟩

end Queue

end Registrar
