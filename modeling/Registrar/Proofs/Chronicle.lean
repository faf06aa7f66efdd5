import Registrar.Proofs.Chronicle.Moment

/-!
Chronicles: queues at work over a store that may fail at any request and a gateway that may answer
anything. Requests are added, the worker and resume scans take up items one at a time, with or without
skipping the chain, and at any moment all may die; the log keeps every exchange. `pursue_processIndex`
and `pursue_round` say that the work is the processor's own, cut where an item is found, and
`run_reached` that every chronicle goes by the ticks of a moment.
-/

namespace Registrar

open Item (Status)

/-- What becomes of the next request, whatever it is. -/
structure Fortune where
  gateway : (request : Gateway.Request) → request.Answer
  /-- The error of the store, if it fails. -/
  failure : Option StoreError
  now : UInt64

/-- The answer to a request, and the store after it. -/
def Fortune.serve (fortune : Fortune) (store : Store) :
    (request : Work.Request) → request.Answer × Store
  | .now => (fortune.now, store)
  | .gateway request => (fortune.gateway request, store)
  | .store request =>
    match fortune.failure with
    | some error => (.error error, store)
    | none => (.ok (store.serve request).1, (store.serve request).2)

/-- What a search comes to: an item, if one was found, and the scan that goes on after it. -/
abbrev Found : Type := Option Item × Option Resume

/-- The search for the item under an index. -/
def Processor.seek (index : Int64) : Program Work Found :=
  (Work.onStore (Items.get index)).run.bind fun
    | .ok (some item) => .done (some item, none)
    | .ok none | .error _ => .done (none, none)

/-- The search of one round of a scan. -/
def Resume.seek : Resume → Program Work Found
  | ⟨[], _⟩ => .done (none, none)
  | ⟨bucket :: later, tried⟩ => (Work.onStore (Items.withStatus bucket)).run.bind fun
    | .error _ => .done (none, none)
    | .ok items =>
      match pick tried items with
      | none => .done (none, some ⟨later, []⟩)
      | some item => .done (some item, some ⟨bucket :: later, item.index :: tried⟩)

/-- The work on what was found. -/
def pursue (skip : Bool) : Found → Program Work (Option Resume)
  | (none, later) => .done later
  | (some item, later) => (Processor.process skip item).run.bind fun _ => .done later

/-- The search for the item under an index, request by request. -/
theorem Processor.seek_eq (index : Int64) :
    seek index = .ask (.store (.get (Items.key index))) fun
      | .error _ | .ok none => .done (none, none)
      | .ok (some record) =>
        match Items.decode (Items.key index) record with
        | .ok item => .done (some item, none)
        | .error _ => .done (none, none) := by
  rw [seek, Items.run_onStore_get]
  refine congrArg (Program.ask _) (funext fun answer => ?_)
  rcases answer with error | _ | record
  · rfl
  · rfl
  · dsimp only
    cases Items.decode (Items.key index) record <;> rfl

/-- The search of one round of a scan, request by request. -/
theorem Resume.seek_eq (bucket : Status) (later : List Status) (tried : List Int64) :
    seek ⟨bucket :: later, tried⟩ = .ask (.store (.scan Items.keyStart)) fun
      | .error _ => .done (none, none)
      | .ok entries =>
        match pick tried (Items.select bucket entries) with
        | none => .done (none, some ⟨later, []⟩)
        | some item => .done (some item, some ⟨bucket :: later, item.index :: tried⟩) := by
  refine congrArg (Program.ask _) (funext fun answer => ?_)
  rcases answer with error | entries
  · rfl
  · rfl

/-- The work on an index is the search for its item and the work on that. -/
theorem pursue_processIndex (skip : Bool) (index : Int64) :
    (Processor.seek index).bind (pursue skip) =
      (Processor.processIndex skip index).run.bind fun _ => .done none := by
  rw [Processor.run_processIndex, Processor.seek_eq]
  refine congrArg (Program.ask _) (funext fun answer => ?_)
  rcases answer with error | _ | record
  · rfl
  · rfl
  · dsimp only
    cases Items.decode (Items.key index) record <;> rfl

/-- One round of a scan is a search and the work on the item it finds. -/
theorem pursue_round (skip : Bool) (resume : Resume) :
    resume.seek.bind (pursue skip) = (resume.round skip).bind fun
      | .again resume => .done (some resume)
      | .finished _ => .done none := by
  obtain ⟨buckets, tried⟩ := resume
  cases buckets with
  | nil => rfl
  | cons bucket later =>
    rw [round_eq, Resume.seek_eq]
    refine congrArg (Program.ask _) (funext fun answer => ?_)
    rcases answer with error | entries
    · rfl
    · dsimp only
      cases Resume.pick tried (Items.select bucket entries) with
      | none => rfl
      | some item =>
        dsimp only
        rw [Program.bind_assoc]
        rfl

/-- The work that is being done. -/
inductive Job where
  | seeking (skip : Bool) (program : Program Work Found)
  /-- What is left of the work on the item with an index, and the scan that goes on after it. -/
  | serving (skip : Bool) (index : Int64) (program : Program Work (Except QueueError Status))
      (later : Option Resume)

/-- A store with what is being done on it and what was done. -/
structure Chronicle where
  store : Store
  job : Option Job
  /-- What is left of adding a request. -/
  desk : Option (Program Work Unit)
  log : List Line

namespace Chronicle

/-- What may happen next. -/
inductive Event where
  /-- The worker begins with an index, unless an item is being worked on. -/
  | work (skip : Bool) (index : Int64)
  /-- A resume scan begins, unless an item is being worked on. -/
  | scan (skip : Bool)
  /-- The job makes its next request. -/
  | turn (fortune : Fortune)
  /-- A request is brought, unless another one is being added. -/
  | add (request : ItemRequest) (fits : request.Fits) (secret : Secret)
  /-- The desk makes its next request. -/
  | file (fortune : Fortune)
  /-- Everything dies but the store. -/
  | die

/-- A queue over an empty store. -/
def start : Chronicle := ⟨.empty, none, none, []⟩

/-- The chronicle after a request was answered. -/
def answered (chronicle : Chronicle) (fortune : Fortune) (request : Work.Request)
    (line : Exchange → Line) : Chronicle :=
  { chronicle with
    store := (fortune.serve chronicle.store request).2
    log := chronicle.log ++ [line ⟨request, (fortune.serve chronicle.store request).1⟩] }

def step (chronicle : Chronicle) : Event → Chronicle
  | .work skip index =>
    if chronicle.job.isSome then chronicle
    else { chronicle with job := some (.seeking skip (Processor.seek index)) }
  | .scan skip =>
    if chronicle.job.isSome then chronicle
    else { chronicle with job := some (.seeking skip Resume.start.seek) }
  | .turn fortune =>
    match chronicle.job with
    | none => chronicle
    | some (.seeking skip (.done (none, later))) =>
      { chronicle with job := later.map fun resume => .seeking skip resume.seek }
    | some (.seeking skip (.done (some item, later))) =>
      { chronicle with job := some (.serving skip item.index (Processor.process skip item).run later) }
    | some (.seeking skip (.ask request next)) =>
      { chronicle.answered fortune request (.aside chronicle.store) with
        job := some (.seeking skip (next (fortune.serve chronicle.store request).1)) }
    | some (.serving skip _ (.done _) later) =>
      { chronicle with job := later.map fun resume => .seeking skip resume.seek }
    | some (.serving skip index (.ask request next) later) =>
      { chronicle.answered fortune request (.work index skip chronicle.store) with
        job := some (.serving skip index (next (fortune.serve chronicle.store request).1) later) }
  | .add request _ secret =>
    if chronicle.desk.isSome then chronicle
    else
      { chronicle with desk := some ((Queue.create request secret).run.bind fun _ => .done ()) }
  | .file fortune =>
    match chronicle.desk with
    | none => chronicle
    | some (.done ()) => { chronicle with desk := none }
    | some (.ask request next) =>
      { chronicle.answered fortune request (.aside chronicle.store) with
        desk := some (next (fortune.serve chronicle.store request).1) }
  | .die => { chronicle with job := none, desk := none, log := chronicle.log ++ [.died] }

/-- The chronicle after some events. -/
def run (events : List Event) : Chronicle := events.foldl step start

end Chronicle

/-- A store that may fail and a gateway that may answer anything. -/
def Surroundings.wild : Surroundings := ⟨fun g _ _ g' => g' = g, True⟩

theorem Fortune.replies (fortune : Fortune) (g : Ground) (request : Work.Request) :
    Surroundings.wild.Replies g request (fortune.serve g.store request).1
      { g with store := (fortune.serve g.store request).2 } := by
  cases request with
  | now | gateway => rfl
  | store request =>
    unfold serve
    cases fortune.failure with
    | none => exact .inl ⟨rfl, rfl⟩
    | some error => exact .inr ⟨trivial, ⟨error, rfl⟩, rfl⟩

theorem Fortune.serve_on (fortune : Fortune) (store : Store) (request : Work.Request) :
    (fortune.serve store request).2 =
      Exchange.on ⟨request, (fortune.serve store request).1⟩ store := by
  cases request with
  | now | gateway => rfl
  | store request =>
    unfold serve
    cases fortune.failure <;> rfl

section

variable {s : Surroundings} {stage : Stage}

/-- What a search leaves in hand. -/
def Found.InHand : Found → Stage → Prop
  | (none, _), stage => stage.Rests
  | (some item, _), stage => stage = .held item none

theorem Processor.heeds_seek (index : Int64) (rests : stage.Rests) :
    (seek index).Heeds s Search Found.InHand stage := by
  rw [seek_eq]
  rintro g answer g' (⟨rfl, rfl⟩ | ⟨_, ⟨error, rfl⟩, rfl⟩)
  · simp only [Store.serve]
    cases found : g.store.get? (Items.key index) with
    | none => exact ⟨stage, .look rfl rests, rests⟩
    | some record =>
      dsimp only
      cases decoded : Item.layout.decode record with
      | error fault =>
        refine ⟨stage, .look rfl rests, ?_⟩
        unfold Items.decode
        rw [decoded]
        exact rests
      | ok item =>
        refine ⟨.held item none,
          .take rfl rests found (Items.keyStart_isPrefixOf_key index) decoded, ?_⟩
        unfold Items.decode
        rw [decoded]
        rfl
  · exact ⟨stage, .look rfl rests, rests⟩

theorem Resume.heeds_seek (resume : Resume) (rests : stage.Rests) :
    resume.seek.Heeds s Search Found.InHand stage := by
  obtain ⟨buckets, tried⟩ := resume
  cases buckets with
  | nil => exact rests
  | cons bucket later =>
    rw [seek_eq]
    rintro g answer g' (⟨rfl, rfl⟩ | ⟨_, ⟨error, rfl⟩, rfl⟩)
    · simp only [Store.serve]
      cases picked : pick tried (Items.select bucket (g.store.scan Items.keyStart)) with
      | none => exact ⟨stage, .look rfl rests, rests⟩
      | some item =>
        obtain ⟨key, record, there, begins, decoded⟩ := stored_of_pick picked
        exact ⟨.held item none, .take rfl rests there begins decoded, rfl⟩
    · exact ⟨stage, .look rfl rests, rests⟩

end

/-- Adding a request puts its item under a free index, or nothing. -/
theorem Queue.heeds_create {s : Surroundings} {asked : Asked} {request : ItemRequest}
    (fits : request.Fits) {secret : Secret} (asks : asked request secret) (desk : Option Item) :
    (create request secret).run.Heeds s (Lodge asked) (fun _ _ => True) desk := by
  rw [run_create]
  rintro g answer g' (⟨rfl, rfl⟩ | ⟨_, ⟨error, rfl⟩, rfl⟩)
  · refine ⟨desk, .look rfl, ?_⟩
    generalize (g.store.serve (.count Items.keyStart)).1 = count
    rintro g now g' rfl
    refine ⟨desk, .look rfl, ?_⟩
    rintro g answer g' (⟨rfl, rfl⟩ | ⟨_, ⟨error, rfl⟩, rfl⟩)
    · cases taken : g.store.contains (Items.key (indexAfter count)) with
      | true =>
        refine ⟨desk, .look rfl, ?_⟩
        simp only [Store.serve, taken]
        trivial
      | false =>
        let item := Item.ofRequest (indexAfter count) secret now request
        have index : item.index = indexAfter count := index_ofRequest _ _ _ _
        have asksFor : item.AskedFor asked :=
          ⟨fits.item _ _ _, secret, now, request, asks, by rw [index]⟩
        refine ⟨some item, .see rfl asksFor (by rw [index]; exact taken), ?_⟩
        simp only [Store.serve, taken]
        rintro g answer g' (⟨rfl, rfl⟩ | ⟨_, ⟨error, rfl⟩, rfl⟩)
        · have inserted : Lodge asked g (some item) _ (g.withItem item) none := .insert
          unfold Ground.withItem Store.withItem at inserted
          rw [index] at inserted
          exact ⟨none, inserted, trivial⟩
        · have missed := @Lodge.miss asked g' item error
          rw [index] at missed
          exact ⟨none, missed, trivial⟩
    · exact ⟨desk, .look rfl, trivial⟩
  · exact ⟨desk, .look rfl, trivial⟩

namespace Chronicle

/-- What an event asks for is among the requests. -/
def Event.Within (asked : Asked) : Event → Prop
  | .add request _ secret => asked request secret
  | .work _ _ | .scan _ | .turn _ | .file _ | .die => True

/-- A job that goes by what is in hand. -/
def Working (skip : Bool) (stage : Stage) : Option Job → Prop
  | none => stage.Rests
  | some (.seeking skip' program) => skip = skip' ∧ program.Heeds .wild Search Found.InHand stage
  | some (.serving skip' index program _) =>
    skip = skip' ∧ (∀ item, stage.item = some item → item.index = index) ∧
      program.Heeds .wild (Conduct skip) (fun _ stage => stage.Rests) stage

/-- A chronicle that has come to a moment. -/
structure Stands (asked : Asked) (chronicle : Chronicle) (m : Moment) : Prop where
  store : m.ground.store = chronicle.store
  job : Working m.skip m.stage chronicle.job
  desk : ∀ program, chronicle.desk = some program →
    program.Heeds .wild (Lodge asked) (fun _ _ => True) m.desk

/-- What an event comes to: at most one tick, which the log keeps. -/
def Advances (asked : Asked) (before after : Chronicle) (m m' : Moment) : Prop :=
  (m' = m ∧ after.log = before.log) ∨
    ∃ lines, Tick .wild asked m lines m' ∧ after.log = before.log ++ lines

variable {asked : Asked} {chronicle : Chronicle} {m : Moment}

theorem stands_start (ledger : Ledger) : Stands asked start (.start ledger) where
  store := rfl
  job := .inl rfl
  desk _ absent := nomatch absent

/-- A scan goes on with its next search. -/
theorem working_later (rests : m.stage.Rests) (later : Option Resume) :
    Working m.skip m.stage (later.map fun resume => .seeking m.skip resume.seek) := by
  cases later with
  | none => exact rests
  | some resume => exact ⟨rfl, resume.heeds_seek rests⟩

/-- The next request of the job. -/
theorem Stands.turn (stands : Stands asked chronicle m) (sound : m.Sound asked) (fortune : Fortune) :
    ∃ m', Stands asked (chronicle.step (.turn fortune)) m' ∧
      Advances asked chronicle (chronicle.step (.turn fortune)) m m' := by
  obtain ⟨store, job, desk, log⟩ := chronicle
  obtain ⟨rfl, working, filing⟩ := stands
  have replies := fortune.replies m.ground
  rcases job with _ | ⟨skip, ⟨_ | item, later⟩ | ⟨request, next⟩⟩ |
    ⟨skip, index, _ | ⟨request, next⟩, later⟩
  · exact ⟨m, ⟨rfl, working, filing⟩, .inl ⟨rfl, rfl⟩⟩
  · obtain ⟨rfl, rests⟩ := working
    exact ⟨m, ⟨rfl, working_later rests later, filing⟩, .inl ⟨rfl, rfl⟩⟩
  · obtain ⟨rfl, inHand⟩ := working
    have inHand : m.stage = .held item none := inHand
    refine ⟨m, ⟨rfl, ⟨rfl, fun other there => ?_, ?_⟩, filing⟩, .inl ⟨rfl, rfl⟩⟩
    · rw [inHand] at there
      cases there
      rfl
    · rw [inHand]
      exact Processor.heeds_process item
  · obtain ⟨rfl, heeds⟩ := working
    obtain ⟨stage', search, rest⟩ := heeds _ _ _ (replies request)
    have store : m.ground.store = (fortune.serve m.ground.store request).2 :=
      (congrArg Ground.store search.ground).symm
    rw [search.ground] at search
    exact ⟨{ m with stage := stage' }, ⟨store, ⟨rfl, rest⟩, filing⟩, .inr ⟨_, .search search, rfl⟩⟩
  · obtain ⟨rfl, _, rests⟩ := working
    exact ⟨m, ⟨rfl, working_later rests later, filing⟩, .inl ⟨rfl, rfl⟩⟩
  · obtain ⟨rfl, own, heeds⟩ := working
    obtain ⟨stage', conducts, rest⟩ := heeds _ _ _ (replies request)
    obtain ⟨item, hand⟩ := conducts.hand
    have index := own item hand
    refine ⟨⟨_, m.skip, stage', m.desk⟩, ⟨rfl, ⟨rfl, fun other there => ?_, rest⟩, filing⟩,
      .inr ⟨_, .work hand conducts (replies request) (fortune.serve_on _ _), ?_⟩⟩
    · exact (sound.index conducts hand there).trans index
    · rw [index]
      rfl

/-- The next request of the desk. -/
theorem Stands.file (stands : Stands asked chronicle m) (fortune : Fortune) :
    ∃ m', Stands asked (chronicle.step (.file fortune)) m' ∧
      Advances asked chronicle (chronicle.step (.file fortune)) m m' := by
  obtain ⟨store, job, desk, log⟩ := chronicle
  obtain ⟨rfl, working, filing⟩ := stands
  rcases desk with _ | _ | ⟨request, next⟩
  · exact ⟨m, ⟨rfl, working, filing⟩, .inl ⟨rfl, rfl⟩⟩
  · exact ⟨m, ⟨rfl, working, fun _ absent => nomatch absent⟩, .inl ⟨rfl, rfl⟩⟩
  · obtain ⟨desk', lodge, rest⟩ := filing _ rfl _ _ _ (fortune.replies m.ground request)
    refine ⟨⟨_, m.skip, m.stage, desk'⟩, ⟨rfl, working, fun program same => ?_⟩,
      .inr ⟨_, .lodge lodge, rfl⟩⟩
    cases same
    exact rest

/-- The job that begins with a search. -/
theorem Stands.begin (stands : Stands asked chronicle m) (idle : chronicle.job = none) (skip : Bool)
    {program : Program Work Found}
    (seeks : m.stage.Rests → program.Heeds .wild Search Found.InHand m.stage) :
    Stands asked { chronicle with job := some (.seeking skip program) } { m with skip := skip } ∧
      Tick .wild asked m [] { m with skip := skip } := by
  have working := stands.job
  rw [idle] at working
  exact ⟨⟨stands.store, ⟨rfl, seeks working⟩, stands.desk⟩, .begin working⟩

/-- One event is at most one tick. -/
theorem Stands.step (stands : Stands asked chronicle m) (sound : m.Sound asked) {event : Event}
    (within : event.Within asked) :
    ∃ m', Stands asked (chronicle.step event) m' ∧
      Advances asked chronicle (chronicle.step event) m m' := by
  cases event with
  | work skip index =>
    simp only [Chronicle.step]
    split
    · exact ⟨m, stands, .inl ⟨rfl, rfl⟩⟩
    · rename_i idle
      obtain ⟨stands', begins⟩ := stands.begin (Option.not_isSome_iff_eq_none.1 idle) skip
        (Processor.heeds_seek index)
      exact ⟨_, stands', .inr ⟨[], begins, (List.append_nil _).symm⟩⟩
  | scan skip =>
    simp only [Chronicle.step]
    split
    · exact ⟨m, stands, .inl ⟨rfl, rfl⟩⟩
    · rename_i idle
      obtain ⟨stands', begins⟩ := stands.begin (Option.not_isSome_iff_eq_none.1 idle) skip
        (Resume.heeds_seek .start)
      exact ⟨_, stands', .inr ⟨[], begins, (List.append_nil _).symm⟩⟩
  | turn fortune => exact stands.turn sound fortune
  | add request fits secret =>
    simp only [Chronicle.step]
    split
    · exact ⟨m, stands, .inl ⟨rfl, rfl⟩⟩
    · refine ⟨m, ⟨stands.store, stands.job, fun program same => ?_⟩, .inl ⟨rfl, rfl⟩⟩
      cases same
      exact (Queue.heeds_create fits within m.desk).bind fun _ _ _ => trivial
  | file fortune => exact stands.file fortune
  | die =>
    refine ⟨{ m with stage := .idle, desk := none }, ⟨stands.store, .inl rfl, fun _ absent => ?_⟩,
      .inr ⟨_, .die (.inr rfl), rfl⟩⟩
    cases absent

/-- Any events lead from a moment to one that it may come to. -/
theorem Stands.events (stands : Stands asked chronicle m) (sound : m.Sound asked) (events : List Event)
    (within : ∀ event ∈ events, event.Within asked) :
    ∃ m' log, Stands asked (events.foldl Chronicle.step chronicle) m' ∧
      Reached .wild asked m log m' ∧
      (events.foldl Chronicle.step chronicle).log = chronicle.log ++ log := by
  induction events generalizing chronicle m with
  | nil => exact ⟨m, [], stands, .here, (List.append_nil _).symm⟩
  | cons event rest ih =>
    have within' := fun event there => within event (List.mem_cons_of_mem _ there)
    obtain ⟨m', stands', ⟨rfl, silent⟩ | ⟨lines, tick, heard⟩⟩ :=
      stands.step sound (within event List.mem_cons_self)
    · obtain ⟨last, log, stands'', reached, later⟩ := ih stands' sound within'
      exact ⟨last, log, stands'', reached, later.trans (congrArg (· ++ log) silent)⟩
    · obtain ⟨last, log, stands'', reached, later⟩ := ih stands' (sound.tick tick) within'
      refine ⟨last, lines ++ log, stands'', Reached.trans (.tick .here tick) reached, ?_⟩
      rw [← List.append_assoc, ← heard]
      exact later

/-- Every chronicle has come to a moment that an empty store may come to, and so has each later
one. -/
theorem run_reached (earlier later : List Event)
    (within : ∀ event ∈ earlier ++ later, event.Within asked) (ledger : Ledger) :
    ∃ m log m', Reached .wild asked (.start ledger) (run earlier).log m ∧
      m.ground.store = (run earlier).store ∧ Reached .wild asked m log m' ∧
      m'.ground.store = (run (earlier ++ later)).store := by
  have begins : Stands asked start (.start ledger) := stands_start ledger
  obtain ⟨m, log, stands, reached, heard⟩ := begins.events (Moment.sound_start ledger) earlier
    fun event there => within event (List.mem_append_left _ there)
  have sound := (Moment.sound_start ledger).reached reached
  obtain ⟨m', log', stands', reached', heard'⟩ := stands.events sound later
    fun event there => within event (List.mem_append_right _ there)
  refine ⟨m, log', m', ?_, stands.store, reached', ?_⟩
  · have same : (run earlier).log = log := heard
    rw [same]
    exact reached
  · rw [run, List.foldl_append]
    exact stands'.store

-- A registration is brought, and its item is completed without a look at the chain.
example :
    let request : ItemRequest :=
      .register ⟨"a.any", "x", "0x10d5B0e279E5E4c1d1Df5F57DFB7E84813920a51", ""⟩
    let fortune : Fortune := ⟨fun _ => .error (.connection ""), none, 7⟩
    let events : List Event := [.add request (by decide) (.fill 1)] ++ .replicate 5 (.file fortune) ++
      [.work true 0] ++ .replicate 6 (.turn fortune)
    (Items.bucket (run events).store .completed).map (·.fullName) = ["a.any"] := by
  decide +kernel

end Chronicle

end Registrar
