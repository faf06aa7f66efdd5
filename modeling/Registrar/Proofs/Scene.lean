import Registrar.Proofs.Queue.AddedItems
import Registrar.Proofs.Queue.WorkedItems

/-!
Queues at work on one store and one ledger, request by request. A worker and a resume scan take items
one at a time, requests are added in between, fault rules come and go, and at any moment all may die
and a new node take over. `Scene.run_keeps` turns what is kept by the moves of the protocol and by the
filing of new items into what holds in every scene that is reached, in the midst of a step as well.
-/

namespace Registrar

open Ledger (Profile)

/-- A store and a ledger with what is being done on them. -/
structure Scene where
  backend : Backend
  /-- What is left of the work on an item or of a round of a scan, after which the scan may go on. -/
  job : Option (Program Work (Option Resume))
  /-- What is left of adding a request. -/
  desk : Option (Program Work Unit)
  /-- What the gateway has answered to submissions. -/
  heard : List Receipt

/-- What may happen next. -/
inductive Event where
  /-- The worker begins with an index, unless an item is being worked on. -/
  | work (index : Int64)
  /-- A resume scan begins, unless an item is being worked on. -/
  | scan
  /-- The job makes its next request. -/
  | turn
  /-- A request is brought, unless another one is being added. -/
  | add (request : ItemRequest) (secret : Secret)
  /-- The desk makes its next request. -/
  | file
  /-- Other fault rules are laid down. -/
  | lay (store : List Store.FaultRule) (gateway : List Gateway.FaultRule)
  /-- Everything dies, and a node with this profile takes over. -/
  | restart (profile : Profile)

/-- The work on an index as a job. -/
def Processor.job (index : Int64) : Program Work (Option Resume) :=
  (processIndex false index).run.bind fun _ => .done none

/-- One round of a scan as a job. -/
def Resume.job (resume : Resume) : Program Work (Option Resume) :=
  (round false resume).bind fun
    | .again resume => .done (some resume)
    | .finished _ => .done none

/-- One request of a program: what is left of it, unless it broke off, and what it has heard. -/
def Backend.advance {α : Type} (backend : Backend) :
    Program Work α → Option (Program Work α) × Backend × List Receipt
  | .done value => (some (.done value), backend, [])
  | .ask request next =>
    match backend.serve request with
    | (none, after) => (none, after, [])
    | (some reply, after) => (some (next reply.answer), after, receipt request reply.answer)

namespace Scene

/-- A node over an empty store and a ledger without transactions. -/
def start (profile : Profile) (calendar : Calendar) (blockTime : UInt64) : Scene :=
  ⟨.fresh profile calendar blockTime, none, none, []⟩

def step (scene : Scene) : Event → Scene
  | .work index => if scene.job.isSome then scene else { scene with job := some (Processor.job index) }
  | .scan => if scene.job.isSome then scene else { scene with job := some Resume.start.job }
  | .turn =>
    match scene.job with
    | none => scene
    | some (.done next) => { scene with job := next.map Resume.job }
    | some program =>
      let (job, backend, receipts) := scene.backend.advance program
      { scene with backend, job, heard := scene.heard ++ receipts }
  | .add request secret =>
    if scene.desk.isSome then scene
    else { scene with desk := some ((Queue.create request secret).run.bind fun _ => .done ()) }
  | .file =>
    match scene.desk with
    | none => scene
    | some (.done ()) => { scene with desk := none }
    | some program =>
      let (desk, backend, receipts) := scene.backend.advance program
      { scene with backend, desk, heard := scene.heard ++ receipts }
  | .lay store gateway =>
    { scene with
      backend :=
        { scene.backend with
          books := { scene.backend.books with store := ⟨scene.backend.books.store.store, store⟩ }
          gatewayRules := gateway } }
  | .restart profile =>
    { scene with backend := { scene.backend with profile }, job := none, desk := none }

/-- The scene after some events. -/
def run (scene : Scene) (events : List Event) : Scene := events.foldl step scene

end Scene

/-- What an event may bring: texts that fit, fault rules that keep to the faults, and profiles that
are allowed. -/
def Event.Fits (faults : Faults) (allowed : Profile → Prop) : Event → Prop
  | .add request _ => request.Fits
  | .lay store gateway => (store ≠ [] → faults.store) ∧ ∀ rule ∈ gateway, faults.Allows rule.effect
  | .restart profile => allowed profile
  | _ => True

/-- What may happen to what a worker has in hand: it takes an item as it is found in the store, or
goes on with what it has. -/
inductive Act (profile : Profile) (faults : Faults) : Moves Hand where
  | take {g hand key record item} :
      g.store.get? key = some record → Items.keyStart.isPrefixOf key = true →
      Item.layout.decode record = .ok item → Act profile faults g hand [] g (.held item)
  | move {g hand receipts g' hand'} :
      Move profile faults g hand receipts g' hand' → Act profile faults g hand receipts g' hand'

section

variable {profile : Profile} {faults : Faults}

/-- The work on an item that was just taken. -/
theorem follows_taken {α : Type} (value : α) (item : Item) :
    ((Processor.process false item).run.bind fun _ => .done value).Follows
      (profile.surroundings faults) (Act profile faults) (fun _ _ => True) (.held item) := by
  have follows : (Processor.process false item).run.Follows (profile.surroundings faults)
      (Act profile faults) (fun _ _ => True) (.held item) :=
    (Processor.follows_process item).mono (fun _ _ _ _ _ => .move) fun _ _ _ => trivial
  exact follows.bind fun _ _ _ => trivial

theorem Processor.follows_job (index : Int64) (hand : Hand) :
    (job index).Follows (profile.surroundings faults) (Act profile faults) (fun _ _ => True) hand := by
  unfold job
  rw [run_processIndex]
  intro g answer g' replies
  rcases replies with ⟨rfl, rfl⟩ | ⟨_, ⟨error, rfl⟩, rfl⟩
  · cases found : g.store.get? (Items.key index) with
    | none =>
      refine ⟨hand, .stay, ?_⟩
      simp only [Store.serve, found]
      trivial
    | some record =>
      simp only [Store.serve, found]
      cases decoded : Item.layout.decode record with
      | error fault =>
        refine ⟨hand, .stay, ?_⟩
        unfold Items.decode
        rw [decoded]
        trivial
      | ok item =>
        refine ⟨.held item, .one (.take found (Items.keyStart_isPrefixOf_key index) decoded), ?_⟩
        unfold Items.decode
        rw [decoded]
        exact follows_taken none item
  · exact ⟨hand, .stay, trivial⟩

theorem Resume.follows_job (resume : Resume) (hand : Hand) :
    resume.job.Follows (profile.surroundings faults) (Act profile faults) (fun _ _ => True) hand := by
  obtain ⟨buckets, tried⟩ := resume
  cases buckets with
  | nil => trivial
  | cons bucket later =>
    unfold job
    rw [round_eq]
    intro g answer g' replies
    rcases replies with ⟨rfl, rfl⟩ | ⟨_, ⟨error, rfl⟩, rfl⟩
    · simp only [Store.serve]
      cases picked : pick tried (Items.select bucket (g.store.scan Items.keyStart)) with
      | none =>
        exact ⟨hand, .stay, trivial⟩
      | some item =>
        obtain ⟨key, record, there, begins, decoded⟩ := stored_of_pick picked
        refine ⟨.held item, .one (.take there begins decoded), ?_⟩
        have taken := @follows_taken profile faults (Option Resume)
          (some ⟨bucket :: later, item.index :: tried⟩) item
        rw [Program.bind_assoc]
        exact taken
    · exact ⟨hand, .stay, trivial⟩

end

/-- A program that is followed is followed after its next request. -/
theorem Backend.advance_follows {σ α : Type} {faults : Faults} {move : Moves σ} {mark : σ}
    {backend after : Backend} {program : Program Work α} {left : Option (Program Work α)}
    {receipts : List Receipt} {fits : α → σ → Prop} (within : backend.Within faults)
    (follows : program.Follows (backend.profile.surroundings faults) move fits mark)
    (advanced : backend.advance program = (left, after, receipts)) :
    after.Within faults ∧ after.profile = backend.profile ∧
      ∃ mark', Chain move backend.ground mark receipts after.ground mark' ∧
        ∀ rest, left = some rest →
          rest.Follows (backend.profile.surroundings faults) move fits mark' := by
  cases program with
  | done value =>
    cases advanced
    refine ⟨within, rfl, mark, .stay, fun rest same => ?_⟩
    cases same
    exact follows
  | ask request next =>
    obtain ⟨kept, same, given, broken⟩ := serve_replies within request
    unfold advance at advanced
    dsimp only at advanced
    cases served : backend.serve request with
    | mk reply after' =>
      rw [served] at kept same given broken advanced
      cases reply with
      | none =>
        cases advanced
        have ground : after.ground = backend.ground := (broken rfl).2
        refine ⟨kept, same, mark, ?_, fun rest absent => ?_⟩
        · rw [ground]
          exact .stay
        · cases absent
      | some reply =>
        cases advanced
        obtain ⟨mark', chain, rest⟩ := follows _ _ _ (given reply rfl)
        refine ⟨kept, same, mark', chain, fun left same => ?_⟩
        cases same
        exact rest

theorem length_receipt_le (request : Work.Request) (answer : request.Answer) :
    (receipt request answer).length ≤ 1 := by
  unfold receipt
  split <;> simp

theorem Backend.length_advance {α : Type} (backend : Backend) (program : Program Work α) :
    (backend.advance program).2.2.length ≤ 1 := by
  cases program with
  | done value => exact Nat.zero_le _
  | ask request next =>
    unfold advance
    dsimp only
    split
    · exact Nat.zero_le _
    · exact length_receipt_le request _

namespace Scene

/-- A job and a desk that go by what is in their hands. -/
structure Stands (faults : Faults) (allowed : Profile → Prop) (scene : Scene) (hand : Hand)
    (desk : Option Item) : Prop where
  within : scene.backend.Within faults
  profile : allowed scene.backend.profile
  job : ∀ program, scene.job = some program →
    program.Follows (scene.backend.profile.surroundings faults)
      (Act scene.backend.profile faults) (fun _ _ => True) hand
  desk : ∀ program, scene.desk = some program →
    program.Follows (scene.backend.profile.surroundings faults) Filing (fun _ _ => True) desk

/-- What holds of a ground and the hands on it, given what was heard. -/
abbrev Holding : Type := Ground → Hand → Option Item → List Receipt → Prop

/-- What every act and every filing keeps. -/
structure Kept (faults : Faults) (allowed : Profile → Prop) (holds : Scene.Holding) : Prop where
  act : ∀ {profile g hand desk before receipts g' hand'}, allowed profile →
    holds g hand desk before → Act profile faults g hand receipts g' hand' →
    holds g' hand' desk (before ++ receipts)
  file : ∀ {g hand desk before receipts g' desk'}, holds g hand desk before →
    Filing g desk receipts g' desk' → holds g' hand desk' (before ++ receipts)

variable {faults : Faults} {allowed : Profile → Prop} {holds : Scene.Holding} {scene : Scene}
  {hand : Hand} {desk : Option Item}

theorem Kept.acts (kept : Kept faults allowed holds) {profile : Profile} (ours : allowed profile)
    {g g' : Ground} {hand' : Hand} {before receipts : List Receipt} (held : holds g hand desk before)
    (chain : Chain (Act profile faults) g hand receipts g' hand') :
    holds g' hand' desk (before ++ receipts) :=
  @Chain.invariant _ _ _ _ _ _ _ (fun g hand before => holds g hand desk before)
    (fun held moved => kept.act ours held moved) _ held chain

theorem Kept.files (kept : Kept faults allowed holds) {g g' : Ground} {desk' : Option Item}
    {before receipts : List Receipt} (held : holds g hand desk before)
    (chain : Chain Filing g desk receipts g' desk') : holds g' hand desk' (before ++ receipts) :=
  @Chain.invariant _ _ _ _ _ _ _ (fun g desk before => holds g hand desk before)
    (fun held moved => kept.file held moved) _ held chain

/-- One event moves the job or the desk, and brings at most one receipt. -/
theorem step_moves (stands : scene.Stands faults allowed hand desk) {event : Event}
    (fits : event.Fits faults allowed) :
    ∃ hand' desk' receipts, (scene.step event).Stands faults allowed hand' desk' ∧
      (scene.step event).heard = scene.heard ++ receipts ∧ receipts.length ≤ 1 ∧
      ((desk' = desk ∧ Chain (Act scene.backend.profile faults) scene.backend.ground hand receipts
          (scene.step event).backend.ground hand') ∨
        (hand' = hand ∧ Chain Filing scene.backend.ground desk receipts
          (scene.step event).backend.ground desk')) := by
  have silent : scene.heard = scene.heard ++ [] := (List.append_nil _).symm
  cases event with
  | work index =>
    simp only [step]
    split
    · exact ⟨hand, desk, [], stands, silent, Nat.zero_le _, .inl ⟨rfl, .stay⟩⟩
    · refine ⟨hand, desk, [], ⟨stands.within, stands.profile, fun program same => ?_, stands.desk⟩,
        silent, Nat.zero_le _, .inl ⟨rfl, .stay⟩⟩
      cases same
      exact Processor.follows_job index hand
  | scan =>
    simp only [step]
    split
    · exact ⟨hand, desk, [], stands, silent, Nat.zero_le _, .inl ⟨rfl, .stay⟩⟩
    · refine ⟨hand, desk, [], ⟨stands.within, stands.profile, fun program same => ?_, stands.desk⟩,
        silent, Nat.zero_le _, .inl ⟨rfl, .stay⟩⟩
      cases same
      exact Resume.follows_job _ hand
  | turn =>
    simp only [step]
    split
    · exact ⟨hand, desk, [], stands, silent, Nat.zero_le _, .inl ⟨rfl, .stay⟩⟩
    · rename_i next job
      refine ⟨hand, desk, [], ⟨stands.within, stands.profile, fun program same => ?_, stands.desk⟩,
        silent, Nat.zero_le _, .inl ⟨rfl, .stay⟩⟩
      obtain ⟨resume, _, rfl⟩ := Option.map_eq_some_iff.1 same
      exact Resume.follows_job _ hand
    · rename_i program _ job
      have few := scene.backend.length_advance program
      cases advanced : scene.backend.advance program with
      | mk left rest =>
        obtain ⟨after, receipts⟩ := rest
        rw [advanced] at few
        obtain ⟨within, same, hand', chain, follows⟩ :=
          Backend.advance_follows stands.within (stands.job program job) advanced
        refine ⟨hand', desk, receipts, ⟨within, ?_, ?_, ?_⟩, rfl, few, .inl ⟨rfl, chain⟩⟩
        · exact same.symm ▸ stands.profile
        · exact same.symm ▸ follows
        · exact same.symm ▸ stands.desk
  | add request secret =>
    simp only [step]
    split
    · exact ⟨hand, desk, [], stands, silent, Nat.zero_le _, .inl ⟨rfl, .stay⟩⟩
    · refine ⟨hand, none, [], ⟨stands.within, stands.profile, stands.job, fun program same => ?_⟩,
        silent, Nat.zero_le _, .inr ⟨rfl, .one .drop⟩⟩
      cases same
      exact (Queue.follows_create fits secret).bind fun _ _ _ => trivial
  | file =>
    simp only [step]
    split
    · exact ⟨hand, desk, [], stands, silent, Nat.zero_le _, .inl ⟨rfl, .stay⟩⟩
    · refine ⟨hand, desk, [], ⟨stands.within, stands.profile, stands.job, fun program same => ?_⟩,
        silent, Nat.zero_le _, .inl ⟨rfl, .stay⟩⟩
      cases same
    · rename_i program _ filing
      have few := scene.backend.length_advance program
      cases advanced : scene.backend.advance program with
      | mk left rest =>
        obtain ⟨after, receipts⟩ := rest
        rw [advanced] at few
        obtain ⟨within, same, desk', chain, follows⟩ :=
          Backend.advance_follows stands.within (stands.desk program filing) advanced
        refine ⟨hand, desk', receipts, ⟨within, ?_, ?_, ?_⟩, rfl, few, .inr ⟨rfl, chain⟩⟩
        · exact same.symm ▸ stands.profile
        · exact same.symm ▸ stands.job
        · exact same.symm ▸ follows
  | lay store gateway =>
    obtain ⟨ofStore, ofGateway⟩ := fits
    exact ⟨hand, desk, [],
      ⟨⟨stands.within.native, ofStore, ofGateway⟩, stands.profile, stands.job, stands.desk⟩,
      silent, Nat.zero_le _, .inl ⟨rfl, .stay⟩⟩
  | restart profile =>
    refine ⟨hand, desk, [], ⟨⟨stands.within.native, stands.within.store, stands.within.gateway⟩, fits,
      fun program same => ?_, fun program same => ?_⟩, silent, Nat.zero_le _, .inl ⟨rfl, .stay⟩⟩
    · cases same
    · cases same

/-- One event keeps what acts and filings keep. -/
theorem step_keeps (kept : Kept faults allowed holds) (stands : scene.Stands faults allowed hand desk)
    (held : holds scene.backend.ground hand desk scene.heard) {event : Event}
    (fits : event.Fits faults allowed) :
    ∃ hand' desk', (scene.step event).Stands faults allowed hand' desk' ∧
      holds (scene.step event).backend.ground hand' desk' (scene.step event).heard := by
  obtain ⟨hand', desk', receipts, stands', heard, -, moved⟩ := step_moves stands fits
  refine ⟨hand', desk', stands', ?_⟩
  rw [heard]
  obtain ⟨rfl, chain⟩ | ⟨rfl, chain⟩ := moved
  · exact kept.acts stands.profile held chain
  · exact kept.files held chain

/-- Any events keep what acts and filings keep. -/
theorem run_keeps (kept : Kept faults allowed holds) (events : List Event)
    (stands : scene.Stands faults allowed hand desk)
    (held : holds scene.backend.ground hand desk scene.heard)
    (fits : ∀ event ∈ events, event.Fits faults allowed) :
    ∃ hand' desk', (scene.run events).Stands faults allowed hand' desk' ∧
      holds (scene.run events).backend.ground hand' desk' (scene.run events).heard := by
  induction events generalizing scene hand desk with
  | nil => exact ⟨hand, desk, stands, held⟩
  | cons event rest ih =>
    obtain ⟨hand', desk', stands', held'⟩ :=
      step_keeps kept stands held (fits event List.mem_cons_self)
    exact ih stands' held' fun event there => fits event (List.mem_cons_of_mem _ there)

theorem stands_start {profile : Profile} (ours : allowed profile) (calendar : Calendar)
    (blockTime : UInt64) : (start profile calendar blockTime).Stands faults allowed .free none where
  within := Backend.within_fresh profile calendar blockTime faults
  profile := ours
  job _ absent := nomatch absent
  desk _ absent := nomatch absent

end Scene

end Registrar
