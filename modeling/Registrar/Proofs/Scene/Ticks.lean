import Registrar.Proofs.Chronicle
import Registrar.Proofs.Scene.Completion

/-!
Scenes at the pace of ticks. Over the ledger and its gateway a tick takes one of a few turns, which
`Tick.turns` lists, and each event of a scene is at most one tick (`Scene.Paced.step`). So what is known
of a scene before an event tells what may have become of it after.
-/

namespace Registrar

open Ledger (Profile)

/-- A store that may fail, and the gateway of the ledger under any profile, which may fail as well. -/
def Surroundings.faulty : Surroundings :=
  ⟨fun g request answer g' => ∃ profile : Profile, profile.replies .all g request answer g', True⟩

/-- Requests on behalf of anyone. -/
def Asked.any : Asked := fun _ _ => True

namespace Ledger.Profile

variable {profile : Profile} {faults : Faults} {g g' : Ground}

/-- A submission is accepted with the next nonce of its sender, or changes nothing. -/
theorem submit_cases (phase : Item.Phase) (s : Submission) {controller : Controller} {sender : Address}
    {nonce : UInt64} {answer : Receipt}
    (own : answer = (g.books.submit
      (profile.guardController controller (g.ledger.submit sender nonce s))).1)
    (ground : g' = (g.books.submit
      (profile.guardController controller (g.ledger.submit sender nonce s))).2.ground) :
    (g' = g ∧ ∀ phase' tx, some (phase, answer) ≠ some (phase', .ok tx)) ∨
      ∃ phase' sender s, g' = g.accepting sender (g.ledger.minedNonce sender) s ∧
        some (phase, answer) =
          some (phase', .ok (g.ledger.nextTx sender (g.ledger.minedNonce sender))) := by
  unfold guardController at own ground
  by_cases bound : controller.address = profile.controller
  · rw [if_pos bound] at own ground
    rcases g.ledger.submit_eq sender nonce s with ⟨rfl, taken⟩ | ⟨_, detail, refused⟩
    · rw [taken] at own ground
      exact .inr ⟨phase, sender, s, ground, congrArg (fun answer => some (phase, answer)) own⟩
    · rw [refused] at own ground
      exact .inl ⟨ground, fun _ _ accepted => by rw [own] at accepted; cases accepted⟩
  · rw [if_neg bound] at own ground
    exact .inl ⟨ground, fun _ _ accepted => by rw [own] at accepted; cases accepted⟩

/-- The ground changes with a submission that is accepted, and with nothing else that the gateway is
asked. -/
theorem replies_cases {request : Gateway.Request} {answer : request.Answer}
    (replies : profile.replies faults g request answer g') :
    (g' = g ∧ ∀ phase tx, Exchange.submitted ⟨.gateway request, answer⟩ ≠ some (phase, .ok tx)) ∨
      ∃ phase sender s, g' = g.accepting sender (g.ledger.minedNonce sender) s ∧
        Exchange.submitted ⟨.gateway request, answer⟩ =
          some (phase, .ok (g.ledger.nextTx sender (g.ledger.minedNonce sender))) := by
  cases request with
  | connect | makeCommitment =>
    rcases replies with ⟨_, ground⟩ | ⟨_, same⟩
    · exact .inl ⟨ground, fun _ _ absent => nomatch absent⟩
    · exact .inl ⟨same, fun _ _ absent => nomatch absent⟩
  | bindController connection =>
    rcases replies with ⟨_, ground⟩ | ⟨_, same⟩
    · refine .inl ⟨ground.trans ?_, fun _ _ absent => nomatch absent⟩
      unfold serve
      dsimp only
      split <;> rfl
    · exact .inl ⟨same, fun _ _ absent => nomatch absent⟩
  | authOptions => exact .inl ⟨(replies_authOptions replies).1, fun _ _ absent => nomatch absent⟩
  | findTx => exact .inl ⟨(replies_findTx replies).1, fun _ _ absent => nomatch absent⟩
  | awaitMined => exact .inl ⟨(replies_awaitMined replies).1, fun _ _ absent => nomatch absent⟩
  | commit auth commitment controller =>
    rcases replies with ⟨own, ground⟩ | ⟨⟨_, error, rfl⟩, same⟩
    · exact submit_cases .commit (.commit commitment) own ground
    · exact .inl ⟨same, fun _ _ absent => nomatch absent⟩
  | register auth registration controller =>
    rcases replies with ⟨own, ground⟩ | ⟨⟨_, error, rfl⟩, same⟩
    · exact submit_cases .register (.register registration) own ground
    · exact .inl ⟨same, fun _ _ absent => nomatch absent⟩
  | renew auth fullName duration controller =>
    rcases replies with ⟨own, ground⟩ | ⟨⟨_, error, rfl⟩, same⟩
    · exact submit_cases .renew (.renew fullName duration) own ground
    · exact .inl ⟨same, fun _ _ absent => nomatch absent⟩

end Ledger.Profile

namespace Surroundings

variable {g g' : Ground} {exchange : Exchange}

/-- What an exchange may do to the ground: the store is as the exchange leaves it, and the ledger
changes with an accepted submission only. -/
theorem faulty_cases (replies : faulty.Replies g exchange.request exchange.answer g') :
    g'.store = exchange.on g.store ∧
      ((g'.ledger = g.ledger ∧ ∀ phase tx, exchange.submitted ≠ some (phase, .ok tx)) ∨
        ∃ phase sender s, g' = g.accepting sender (g.ledger.minedNonce sender) s ∧
          exchange.submitted =
            some (phase, .ok (g.ledger.nextTx sender (g.ledger.minedNonce sender)))) := by
  obtain ⟨request, answer⟩ := exchange
  cases request with
  | now =>
    cases replies
    exact ⟨rfl, .inl ⟨rfl, fun _ _ absent => nomatch absent⟩⟩
  | store request =>
    rcases replies with ⟨rfl, rfl⟩ | ⟨_, ⟨error, rfl⟩, rfl⟩
    · exact ⟨rfl, .inl ⟨rfl, fun _ _ absent => nomatch absent⟩⟩
    · exact ⟨rfl, .inl ⟨rfl, fun _ _ absent => nomatch absent⟩⟩
  | gateway request =>
    obtain ⟨profile, replies⟩ := replies
    rcases Profile.replies_cases replies with ⟨rfl, refused⟩ | ⟨phase, sender, s, rfl, accepted⟩
    · exact ⟨rfl, .inl ⟨rfl, refused⟩⟩
    · exact ⟨rfl, .inr ⟨phase, sender, s, rfl, accepted⟩⟩

theorem faulty_of_profile {profile : Profile} {request : Work.Request} {answer : request.Answer}
    (replies : (profile.surroundings .all).Replies g request answer g') :
    faulty.Replies g request answer g' := by
  cases request with
  | now => exact replies
  | store request => exact replies
  | gateway request => exact ⟨profile, replies⟩

end Surroundings

/-- What a tick may make of the ground and the stage of a moment. -/
inductive Moment.Turns (m : Moment) : Ground → Stage → Prop where
  | stay : Turns m m.ground m.stage
  | rest {stage} : stage.Rests → Turns m m.ground stage
  | accept {item promise phase sender s} :
      m.stage = .held item promise → item.sending = some phase →
      Turns m (m.ground.accepting sender (m.ground.ledger.minedNonce sender) s)
        (.sent item phase (m.ground.ledger.nextTx sender (m.ground.ledger.minedNonce sender)))
  | find {item tx} : item.Waits m.ground tx → Turns m m.ground (.found item tx)
  | mine {item tx} :
      m.stage = .found item tx → m.ground.ledger.landed tx.hash = true →
      Turns m m.ground (.mined item tx)
  | note {item tx} : m.stage = .mined item tx → Turns m (m.ground.noting tx) (.noted item)
  | due {item due} (date : UInt64) :
      Stage.Due m.skip m.stage item due → Turns m m.ground (.writing item (due.dated date))
  | write {item written} :
      m.stage = .writing item written → Items.Holds m.ground.store item →
      item.Advances m.skip written → Turns m (m.ground.withItem written) (.held written none)
  | insert {item} :
      item.New → m.ground.store.contains (Items.key item.index) = false →
      Turns m (m.ground.withItem item) m.stage

section

variable {m m' : Moment} {lines : List Line} {exchange : Exchange} {stage : Stage} {g : Ground}

/-- What the work on an item makes of the ground is what the ledger's gateway lets it. -/
theorem Conducts.turns (conducts : Conducts m.skip m.stage exchange stage) (sound : m.Sound .any)
    (replies : Surroundings.faulty.Replies m.ground exchange.request exchange.answer g) :
    m.Turns g stage := by
  obtain ⟨on, ⟨same, refused⟩ | ⟨phase, sender, s, rfl, accepted⟩⟩ :=
    Surroundings.faulty_cases replies
  · rcases conducts.comes_to with
      ⟨put, kept, _⟩ | ⟨item, tx, mined, rfl, rfl⟩ | ⟨item, written, writing, rfl, rfl⟩
    · have ground : g = m.ground := Ground.ext (on.trans (kept _)) same
      subst ground
      have entered := conducts.entered
      cases stage with
      | idle => exact .rest (.inl rfl)
      | held item promise => exact .rest (.inr ⟨_, _, rfl⟩)
      | sent item phase tx => exact absurd entered.2.2 (refused _ _)
      | found item tx =>
        obtain ⟨_, phase, hash, connection, awaits, recorded, rfl⟩ := entered
        obtain ⟨profile, replies⟩ := replies
        obtain ⟨_, ⟨mined, there, own⟩ | ⟨⟨error, fails⟩, _⟩⟩ := Profile.replies_findTx replies
        · cases own
          exact .find ⟨phase, hash, mined, awaits, recorded, there, rfl⟩
        · cases fails
      | mined item tx =>
        obtain ⟨before, connection, rfl⟩ := entered
        obtain ⟨profile, replies⟩ := replies
        obtain ⟨_, ⟨_, landed⟩ | ⟨no | ⟨error, fails⟩, _⟩⟩ := Profile.replies_awaitMined replies
        · exact .mine before landed
        · cases no
        · cases fails
      | noted item =>
        obtain ⟨_, _, _, saved⟩ := entered
        rw [put] at saved
        cases saved
      | writing item written =>
        rcases entered with before | ⟨due, date, isDue, rfl⟩
        · exact before ▸ .stay
        · exact .due date isDue
    · have ground : g = m.ground.noting tx := Ground.ext on same
      exact ground ▸ .note mined
    · have advances := sound.writing item written writing
      have held := sound.stage item (writing ▸ rfl)
      have ground : g = m.ground.withItem written :=
        Ground.ext (on.trans (Store.withItem_eq advances.index)) same
      exact ground ▸ .write writing held advances
  · obtain ⟨item, promise, before, sends, rfl⟩ := conducts.of_submitted accepted
    exact .accept before sends

/-- Whatever happens is one of the turns. -/
theorem Tick.turns (tick : Tick .faulty .any m lines m') (sound : m.Sound .any) :
    m.Turns m'.ground m'.stage := by
  cases tick with
  | work hand conducts replies => exact conducts.turns sound replies
  | search search =>
    rcases search.to_rests with ⟨rests, rfl | ⟨item, rfl⟩⟩
    · exact .rest rests
    · exact .rest (.inr ⟨_, _, rfl⟩)
  | lodge lodge =>
    obtain ⟨ground, skip, stage, desk⟩ := m
    cases lodge with
    | look | see | miss => exact .stay
    | insert =>
      obtain ⟨asks, free⟩ := sound.desk _ rfl
      exact .insert asks.new free
  | die => exact .rest (.inl rfl)
  | leave => exact .stay
  | begin rests => exact .rest rests

end

/-- What may happen to a worker: it searches, or goes on with the item in hand. -/
inductive Toil : Passes Stage where
  | search {g stage exchange g' stage'} :
      Search g stage exchange g' stage' → Toil g stage exchange g' stage'
  | work {g stage exchange g' stage'} :
      Conducts false stage exchange stage' → Toil g stage exchange g' stage'

section

variable {s : Surroundings} {stage : Stage}

/-- The work on what was found leaves nothing half done. -/
theorem heeds_pursue {program : Program Work Found}
    (heeds : program.Heeds s Search Found.InHand stage) :
    (program.bind (pursue false)).Heeds s Toil (fun _ stage => stage.Rests) stage := by
  have searches : program.Heeds s Toil Found.InHand stage :=
    heeds.mono (fun _ _ _ _ _ => .search) fun _ _ inHand => inHand
  refine searches.bind ?_
  rintro ⟨_ | item, later⟩ stage inHand
  · exact inHand
  · cases inHand
    have worked : (Processor.process false item).run.Heeds s Toil (fun _ stage => stage.Rests)
        (.held item none) :=
      (Processor.heeds_process item).mono (fun _ _ _ _ _ => .work) fun _ _ rests => rests
    exact worked.bind fun _ _ rests => rests

theorem Processor.heeds_job (index : Int64) (rests : stage.Rests) :
    (job index).Heeds s Toil (fun _ stage => stage.Rests) stage := by
  unfold job
  rw [← pursue_processIndex]
  exact heeds_pursue (heeds_seek index rests)

theorem Resume.heeds_job (resume : Resume) (rests : stage.Rests) :
    resume.job.Heeds s Toil (fun _ stage => stage.Rests) stage := by
  have same : resume.job = resume.seek.bind (pursue false) := (pursue_round false resume).symm
  rw [same]
  exact heeds_pursue (resume.heeds_seek rests)

end

namespace Scene

/-- A job that goes by what is in hand. -/
def Working (stage : Stage) : Option (Program Work (Option Resume)) → Prop
  | none => stage.Rests
  | some program => program.Heeds .faulty Toil (fun _ stage => stage.Rests) stage

/-- A scene that has come to a moment. -/
structure Paced (scene : Scene) (m : Moment) : Prop where
  within : scene.backend.Within .all
  ground : m.ground = scene.backend.ground
  skip : m.skip = false
  job : Working m.stage scene.job
  desk : ∀ program, scene.desk = some program →
    program.Heeds .faulty (Lodge .any) (fun _ _ => True) m.desk

/-- Nothing happened, or one tick. -/
def Follows (m m' : Moment) : Prop := m' = m ∨ ∃ lines, Tick .faulty .any m lines m'

variable {scene : Scene} {m : Moment}

theorem paced_start (profile : Profile) (calendar : Calendar) (blockTime : UInt64) :
    (start profile calendar blockTime).Paced (.start (.fresh blockTime)) where
  within := Backend.within_fresh profile calendar blockTime .all
  ground := rfl
  skip := rfl
  job := .inl rfl
  desk _ absent := nomatch absent

/-- The next request of the job. -/
theorem Paced.turn (paced : scene.Paced m) :
    ∃ m', (scene.step .turn).Paced m' ∧ Follows m m' := by
  obtain ⟨backend, job, desk, heard⟩ := scene
  obtain ⟨within, ground, skip, working, filing⟩ := paced
  rcases job with _ | next | ⟨request, next⟩
  · exact ⟨m, ⟨within, ground, skip, working, filing⟩, .inl rfl⟩
  · refine ⟨m, ⟨within, ground, skip, ?_, filing⟩, .inl rfl⟩
    cases next with
    | none => exact working
    | some resume => exact resume.heeds_job working
  · obtain ⟨kept, _, given, broken⟩ := Backend.serve_replies within request
    simp only [step, Backend.advance]
    cases served : backend.serve request with
    | mk reply after =>
      rw [served] at kept given broken
      cases reply with
      | none =>
        have same : m.ground = after.ground := ground.trans (broken rfl).2.symm
        exact ⟨{ m with stage := .idle }, ⟨kept, same, skip, .inl rfl, filing⟩,
          .inr ⟨_, .die (.inl rfl)⟩⟩
      | some reply =>
        have replies : Surroundings.faulty.Replies m.ground request reply.answer after.ground :=
          ground ▸ Surroundings.faulty_of_profile (given reply rfl)
        obtain ⟨stage', toil, rest⟩ := working _ _ _ replies
        refine ⟨{ m with ground := after.ground, stage := stage' }, ⟨kept, rfl, skip, rest, filing⟩,
          .inr ?_⟩
        have on := (@Surroundings.faulty_cases _ _ ⟨request, reply.answer⟩ replies).1
        generalize after.ground = g' at toil replies on
        cases toil with
        | search search =>
          cases search.ground
          exact ⟨_, .search search⟩
        | work conducts =>
          obtain ⟨item, hand⟩ := conducts.hand
          exact ⟨_, .work hand (skip ▸ conducts) replies on⟩

/-- The next request of the desk. -/
theorem Paced.file (paced : scene.Paced m) :
    ∃ m', (scene.step .file).Paced m' ∧ Follows m m' := by
  obtain ⟨backend, job, desk, heard⟩ := scene
  obtain ⟨within, ground, skip, working, filing⟩ := paced
  rcases desk with _ | _ | ⟨request, next⟩
  · exact ⟨m, ⟨within, ground, skip, working, filing⟩, .inl rfl⟩
  · exact ⟨m, ⟨within, ground, skip, working, fun _ absent => by cases absent⟩, .inl rfl⟩
  · obtain ⟨kept, _, given, broken⟩ := Backend.serve_replies within request
    simp only [step, Backend.advance]
    cases served : backend.serve request with
    | mk reply after =>
      rw [served] at kept given broken
      cases reply with
      | none =>
        have same : m.ground = after.ground := ground.trans (broken rfl).2.symm
        exact ⟨{ m with desk := none },
          ⟨kept, same, skip, working, fun _ absent => by cases absent⟩, .inr ⟨_, .leave⟩⟩
      | some reply =>
        have replies : Surroundings.faulty.Replies m.ground request reply.answer after.ground :=
          ground ▸ Surroundings.faulty_of_profile (given reply rfl)
        obtain ⟨desk', lodge, rest⟩ := filing _ rfl _ _ _ replies
        refine ⟨{ m with ground := after.ground, desk := desk' },
          ⟨kept, rfl, skip, working, fun program same => ?_⟩, .inr ⟨_, .lodge lodge⟩⟩
        cases same
        exact rest

/-- One event is at most one tick. -/
theorem Paced.step (paced : scene.Paced m) {event : Event} (fits : event.Fits .all fun _ => True) :
    ∃ m', (scene.step event).Paced m' ∧ Follows m m' := by
  cases event with
  | work index =>
    simp only [Scene.step]
    split
    · exact ⟨m, paced, .inl rfl⟩
    · rename_i idle
      have working := paced.job
      rw [Option.not_isSome_iff_eq_none.1 idle] at working
      exact ⟨m, ⟨paced.within, paced.ground, paced.skip, Processor.heeds_job index working,
        paced.desk⟩, .inl rfl⟩
  | scan =>
    simp only [Scene.step]
    split
    · exact ⟨m, paced, .inl rfl⟩
    · rename_i idle
      have working := paced.job
      rw [Option.not_isSome_iff_eq_none.1 idle] at working
      exact ⟨m, ⟨paced.within, paced.ground, paced.skip, Resume.heeds_job .start working,
        paced.desk⟩, .inl rfl⟩
  | turn => exact paced.turn
  | add request secret =>
    simp only [Scene.step]
    split
    · exact ⟨m, paced, .inl rfl⟩
    · refine ⟨m, ⟨paced.within, paced.ground, paced.skip, paced.job, fun program same => ?_⟩,
        .inl rfl⟩
      cases same
      exact (Queue.heeds_create fits trivial m.desk).bind fun _ _ _ => trivial
  | file => exact paced.file
  | lay store gateway =>
    obtain ⟨ofStore, ofGateway⟩ := fits
    exact ⟨m, ⟨⟨paced.within.native, ofStore, ofGateway⟩, paced.ground, paced.skip, paced.job,
      paced.desk⟩, .inl rfl⟩
  | restart profile =>
    exact ⟨{ m with stage := .idle, desk := none },
      ⟨⟨paced.within.native, paced.within.store, paced.within.gateway⟩, paced.ground, paced.skip,
        .inl rfl, fun _ absent => by cases absent⟩, .inr ⟨_, .die (.inr rfl)⟩⟩

end Scene

end Registrar
