import Mathlib.Data.List.Infix
import Registrar.Proofs.Ledger.Commitments
import Registrar.Proofs.Restart.CompletedItems

/-!
Queues that were interrupted. A new node takes over what was left of a queue, nothing fails any more, and its
scan runs to the end. `Scene.restart_clear_iff` says that nothing of what the scan sends is rejected exactly
if what was left is `Resumable`, and which registrations are completed then. It is not enough that all
accepted transactions are on record (`Scene.not_restart_clear`): a nonce that was used up but not saved yet is
offered to the next item that sends something.
-/

namespace Registrar

open Item (Status)
open Ledger (Profile)

theorem Item.length_firstPart_le (fullName : String) :
    (Text.bytes (firstPart fullName)).length ≤ (Text.bytes fullName).length := by
  unfold firstPart
  dsimp only
  split
  · have begins := List.take_prefix (fullName.toList.length - 4) fullName.toList
    unfold Text.bytes Text.Utf8.encode
    rw [String.toList_ofList]
    exact (List.IsPrefix.flatMap begins _).length_le
  · exact Nat.le_refl _

/-- The texts of an item that fits make registrations that fit. -/
theorem Item.Fits.registration {item : Item} (fits : item.Fits) (account : Address) :
    (item.registration account).Fits := by
  simp only [Fits, List.mem_cons, List.not_mem_nil, or_false, forall_eq_or_imp, forall_eq] at fits
  obtain ⟨name, any, -, space⟩ := fits
  have first := Item.length_firstPart_le item.fullName
  simp only [Registration.Fits, Item.registration, List.mem_cons, List.not_mem_nil, or_false,
    forall_eq_or_imp, forall_eq]
  exact ⟨Nat.lt_of_le_of_lt first name, name, any, space⟩

/-- The hash does not collide on what the items in the store commit to. -/
def CommitmentsApart (g : Ground) : Prop :=
  ∀ a b account account', Items.Holds g.store a → Items.Holds g.store b →
    Processor.owner a = .ok account → Processor.owner b = .ok account' →
    Registration.CollisionFree (a.registration account) (b.registration account')

theorem CommitmentsApart.injective {g : Ground} (apart : CommitmentsApart g) : Injective g := by
  intro a b heldA heldB commits same
  cases ownedA : Processor.owner a with
  | error error =>
    unfold Item.commitment? at commits
    rw [ownedA] at commits
    cases commits
  | ok account =>
    rw [Item.commitment?_of_owner ownedA] at same
    cases ownedB : Processor.owner b with
    | error error =>
      unfold Item.commitment? at same
      rw [ownedB] at same
      cases same
    | ok account' =>
      rw [Item.commitment?_of_owner ownedB, Option.some_inj] at same
      have alike := (apart a b account account' heldA heldB ownedA ownedB).eq_of_commitment
        (heldA.1.registration account) (heldB.1.registration account') same
      exact congrArg Registration.fullName alike

/-- Whatever fails, the store stays tidy. -/
theorem tidy_carries (allowed : Profile → Prop) :
    Carries allowed (fun _ => True) (fun _ g => Items.Tidy g.store) fun _ g old item =>
      Items.Holds g.store old ∧ item.origin = old.origin where
  sane_before _ := trivial
  tidy := id
  place := id
  accept _ tidy held _ _ := ⟨tidy, held, Item.origin_record _ _ _⟩
  fail _ _ held _ := ⟨held, rfl⟩
  note _ tidy held _ _ := ⟨Items.tidy_withNonce tidy, Items.holds_withNonce.2 held, rfl⟩
  write _ tidy ready := Items.tidy_withItem tidy ((Item.fits_iff_of_origin ready.2).2 ready.1.1)
  insert tidy new _ := Items.tidy_withItem tidy new.1
  ready_insert ready new absent := ⟨holds_insert ready.1 new absent, ready.2⟩

namespace Scene

variable {scene : Scene}

theorem run_append (scene : Scene) (before later : List Event) :
    scene.run (before ++ later) = (scene.run before).run later :=
  List.foldl_append

/-- Without a job there is nothing to take turns. -/
theorem turns_idle (idle : scene.job = none) (n : Nat) : scene.run (.replicate n .turn) = scene := by
  induction n with
  | zero => rfl
  | succ n ih =>
    have stays : scene.step .turn = scene := by simp only [step, idle]
    rw [List.replicate_succ]
    change (scene.step .turn).run _ = _
    rw [stays, ih]

/-- Once the job has come to its end, further turns change nothing. -/
theorem turns_unique {n m : Nat} (ended : (scene.run (.replicate n .turn)).job = none)
    (ended' : (scene.run (.replicate m .turn)).job = none) :
    scene.run (.replicate n .turn) = scene.run (.replicate m .turn) := by
  have later : ∀ {n : Nat} (k : Nat), (scene.run (.replicate n .turn)).job = none →
      scene.run (.replicate (n + k) .turn) = scene.run (.replicate n .turn) := by
    intro n k ended
    rw [← List.replicate_append_replicate, run_append, turns_idle ended]
  rw [← later m ended, ← later n ended', Nat.add_comm]

/-- The turns of a job are the performance of its program, if that comes to an end. -/
theorem turns_perform {α : Type} {program : Program Work α} {f : α → Program Work (Option Resume)}
    {value : α} (job : scene.job = some (program.bind f))
    (finished : (scene.backend.perform program).value = some value) :
    ∃ n, scene.run (.replicate n .turn) =
      { scene with
        backend := (scene.backend.perform program).backend, job := some (f value)
        heard := scene.heard ++ (scene.backend.perform program).receipts } := by
  induction program generalizing scene with
  | done other =>
    cases finished
    obtain ⟨backend, _, desk, heard⟩ := scene
    cases job
    exact ⟨0, congrArg (Scene.mk _ _ _) (List.append_nil heard).symm⟩
  | ask request next ih =>
    obtain ⟨backend, _, desk, heard⟩ := scene
    cases job
    dsimp only at finished ⊢
    cases served : backend.serve request with
    | mk reply after =>
      cases reply with
      | none =>
        rw [Backend.perform_broken served] at finished
        cases finished
      | some reply =>
        rw [Backend.perform_answered served] at finished ⊢
        obtain ⟨n, turns⟩ := @ih reply.answer ⟨after, some ((next reply.answer).bind f), desk,
          heard ++ receipt request reply.answer⟩ rfl finished
        refine ⟨n + 1, ?_⟩
        have first : step ⟨backend, some ((Program.ask request next).bind f), desk, heard⟩ .turn =
            ⟨after, some ((next reply.answer).bind f), desk, heard ++ receipt request reply.answer⟩ := by
          simp only [step, Program.bind, Backend.advance, served]
        rw [List.replicate_succ]
        change (step _ .turn).run _ = _
        rw [first, turns, Performance.receipts_prepend, List.append_assoc]
        simp only [Exchange.receipts, List.flatMap_cons, List.flatMap_nil, List.append_nil]
        rfl

/-- The turns of a scan are its rounds. -/
theorem turns_repeats {backend last : Backend} {state : Resume} {receipts : List Receipt}
    {value : Except QueueError Unit}
    (repeats : Repeats (Resume.round false) backend state receipts value last)
    (here : scene.backend = backend) (job : scene.job = some state.job) :
    ∃ n, scene.run (.replicate n .turn) =
      { scene with backend := last, job := none, heard := scene.heard ++ receipts } := by
  induction repeats generalizing scene with
  | finish finished =>
    subst here
    obtain ⟨n, turns⟩ := turns_perform job finished
    refine ⟨n + 1, ?_⟩
    rw [← List.replicate_append_replicate, run_append, turns]
    rfl
  | again finished _ ih =>
    subst here
    obtain ⟨n, turns⟩ := turns_perform job finished
    obtain ⟨m, later⟩ := @ih { scene with
        backend := _, job := some _, heard := scene.heard ++ _ } rfl rfl
    refine ⟨n + 1 + m, ?_⟩
    rw [← List.replicate_append_replicate, ← List.replicate_append_replicate, run_append, run_append, turns]
    refine Eq.trans later ?_
    rw [List.append_assoc]

/-- Whatever fails, the store of a queue that began without items stays tidy. -/
theorem run_tidy {backend : Backend} {faults : Faults} {allowed : Profile → Prop} (events : List Event)
    (stands : Stands faults allowed ⟨backend, none, none, []⟩ .free none)
    (empty : backend.ground.store.scan Items.keyStart = [])
    (fits : ∀ event ∈ events, event.Fits faults allowed) :
    let scene := (⟨backend, none, none, []⟩ : Scene).run events
    Items.Tidy scene.backend.ground.store ∧ ∃ hand desk, scene.Stands faults allowed hand desk := by
  obtain ⟨hand, desk, standing, tidied⟩ := run_keeps (tidy_carries allowed).kept events stands
    (fun _ => ⟨(Items.empty_of_scan empty).1, trivial, trivial⟩) fits
  exact ⟨(tidied trivial).holds, hand, desk, standing⟩

/-- All has died, and a node with this profile has taken over, which finds that nothing fails any more and
begins its scan. -/
def takenOver (scene : Scene) (profile : Profile) : Scene :=
  scene.run [.restart profile, .lay [] [], .scan]

/-- Whatever was done before, a node that takes over drives what was left, and its scan comes to an end. -/
theorem takenOver_swept {faults : Faults} {allowed : Profile → Prop} {hand : Hand} {desk : Option Item}
    (stands : scene.Stands faults allowed hand desk) (tidy : Items.Tidy scene.backend.ground.store)
    (profile : Profile) :
    ∃ receipts last, Swept profile .none scene.backend.ground
        (pending scene.backend.ground.store Status.resumeBuckets) receipts last.ground ∧
      ∃ n, (scene.takenOver profile).run (.replicate n .turn) =
        { scene.takenOver profile with backend := last, job := none, heard := scene.heard ++ receipts } := by
  have within : (scene.takenOver profile).backend.Within .none :=
    ⟨stands.within.native, fun some => absurd rfl some, nofun⟩
  obtain ⟨receipts, last, repeats, -, -, worked⟩ := scan_worked within id id
    (fun status => Status.mem_resumeBuckets.1) (by decide) tidy
  obtain ⟨n, turns⟩ := turns_repeats repeats rfl rfl
  refine ⟨receipts, last, swept_of_worked worked ?_ (pending_apart tidy (by decide)), n, turns⟩
  intro item there
  obtain ⟨status, -, found⟩ := List.mem_flatMap.1 there
  exact ((Items.mem_bucket tidy).1 found).1

/-- However a queue was interrupted whose gateway is healthy, and whatever its store failed to write: the
scan of a node that takes over comes to an end. Unless hashes collide or nonces run out, the ledger rejects
nothing that it sends exactly if what was left is resumable; and then each registration that was left
unfinished is completed, if its owner is known, it asks alone for its name, and nobody else has that name. -/
theorem restart_clear_iff {backend : Backend} (events : List Event)
    (within : backend.Within ⟨True, False, False⟩) (free : backend.profile.nonceOverride = none)
    (empty : backend.ground.store.scan Items.keyStart = [])
    (inStep : backend.ground.InStep backend.profile.admin)
    (fits : ∀ event ∈ events, event.Fits ⟨True, False, False⟩ (· = backend.profile)) :
    let admin := backend.profile.admin
    let stopped := (⟨backend, none, none, []⟩ : Scene).run events
    let left := stopped.backend.ground
    let resumed := fun n => (stopped.takenOver backend.profile).run (.replicate n .turn)
    (∃ n, (resumed n).job = none) ∧
    ∀ n, (resumed n).job = none → (hashes (resumed n).heard).Nodup →
      (backend.ground.ledger.minedNonce admin).toNat + (hashes (resumed n).heard).length + 2 < 2 ^ 64 →
      (Clear ((resumed n).heard.drop stopped.heard.length) ↔ Resumable admin left) ∧
      (Resumable admin left → CommitmentsApart left → ∀ item owner, Items.Holds left.store item →
        item.kind = .register → item.status.isTerminal = false → Processor.owner item = .ok owner →
        item.Alone left →
        left.ledger.name? item.fullName = none ∨ item.landed left.ledger .register = true →
        ∃ final, Items.Holds (resumed n).backend.ground.store final ∧ final.origin = item.origin ∧
          final.status = .completed) := by
  intro admin stopped left resumed
  have stands : Stands ⟨True, False, False⟩ (· = backend.profile) ⟨backend, none, none, []⟩ .free none :=
    ⟨within, rfl, nofun, nofun⟩
  obtain ⟨tidy, _, _, standing⟩ := run_tidy events stands empty fits
  obtain ⟨_, _, _, carried⟩ := run_keeps (followed_carries backend.profile _).kept events stands
    (fun _ => ⟨followed_start empty inStep, trivial, trivial⟩) fits
  obtain ⟨receipts, last, swept, m, turns⟩ := takenOver_swept standing tidy backend.profile
  refine ⟨⟨m, congrArg Scene.job turns⟩, fun n ended distinct room => ?_⟩
  -- Any other number of turns after which the job is over has led to the same scene.
  have same : resumed n = _ := (turns_unique ended (congrArg Scene.job turns)).trans turns
  rw [same] at distinct room ⊢
  dsimp only at distinct room ⊢
  rw [hashes_append] at distinct room
  have sane : Sane (backend.ground.ledger.minedNonce admin).toNat
      (hashes stopped.heard ++ hashes receipts) := ⟨distinct, room⟩
  -- What the whole run is assumed to have spared holds of the part before the interruption.
  have followed := (carried ((followed_carries backend.profile _).sane_before sane)).holds
  have clear_iff := clear_iff_resumable swept id free followed sane
  rw [List.drop_left]
  refine ⟨clear_iff, fun resumable apart item owner held kind live owned alone unclaimed => ?_⟩
  exact completes swept id free followed sane (clear_iff.2 resumable) apart.injective held kind live owned
    alone unclaimed

namespace Interrupted

def owner : String := "0x10d5B0e279E5E4c1d1Df5F57DFB7E84813920a51"

/-- An empty queue and a ledger without transactions, with the account's first nonce on record. -/
def backend : Backend :=
  { Backend.fresh .sample ⟨7, 1⟩ 0 with
    books := ⟨.fresh 0, ⟨Store.empty.withNonce ⟨Profile.sample.admin, 0⟩, []⟩⟩ }

/-- The first of two registrations, which is not begun. -/
def waiting (somebody : String) : Item :=
  .ofRequest 0 (.fill 1) 7 (.register ⟨"a.any", "x", somebody, ""⟩)

/-- Two registrations are added, the first one for somebody. All stops when the commitment to the second one
was sent and put on record, but the nonce after it was not. -/
def events (somebody : String) : List Event :=
  [.add (.register ⟨"a.any", "x", somebody, ""⟩) (.fill 1)] ++ .replicate 5 .file ++
    [.add (.register ⟨"b.any", "x", owner, ""⟩) (.fill 2)] ++ .replicate 5 .file ++
    [.work 1] ++ .replicate 9 .turn

def stopped (somebody : String) : Scene := (⟨backend, none, none, []⟩ : Scene).run (events somebody)

def resumed (somebody : String) (n : Nat) : Scene :=
  ((stopped somebody).takenOver .sample).run (.replicate n .turn)

theorem within (faults : Faults) : backend.Within faults :=
  ⟨rfl, fun some => absurd rfl some, fun _ there => nomatch there⟩

theorem fits {somebody : String} (short : (Text.bytes somebody).length < 2 ^ 64) (faults : Faults)
    (allowed : Profile → Prop) : ∀ event ∈ events somebody, event.Fits faults allowed := by
  intro event there
  simp only [events, List.mem_append, List.mem_singleton, List.mem_replicate] at there
  rcases there with ((((rfl | ⟨_, rfl⟩) | rfl) | ⟨_, rfl⟩) | rfl) | ⟨_, rfl⟩
  · intro text there
    simp only [ItemRequest.texts, List.mem_cons, List.not_mem_nil, or_false] at there
    rcases there with rfl | rfl | rfl | rfl
    · decide
    · decide
    · exact short
    · decide
  · trivial
  · exact show ItemRequest.Fits _ by decide
  all_goals trivial

theorem tidy {somebody : String} (short : (Text.bytes somebody).length < 2 ^ 64) :
    Items.Tidy (stopped somebody).backend.ground.store :=
  (run_tidy (events somebody) ⟨within .none, trivial, nofun, nofun⟩ (by decide)
    (fits short .none fun _ => True)).1

set_option maxRecDepth 8000 in
/-- What was accepted is on record, and the first registration is offered a nonce that is used up. -/
theorem refused :
    (hashes (stopped owner).heard =
        (Items.bucket (stopped owner).backend.ground.store .commitSent).filterMap
          fun item => (item.sent .commit).hash) ∧
      ∃ receipt ∈ (resumed owner 6).heard.drop (stopped owner).heard.length,
        Receipt.isRejected receipt = true :=
  ⟨rfl, by decide⟩

set_option maxRecDepth 8000 in
/-- What is left for the scan when the first registration is for nobody: it sends nothing, and the
commitment to the second one was the last to take effect. -/
theorem left_nobody :
    let left := (stopped "0x10").backend.ground
    (Items.Holds left.store (waiting "0x10") ∧
        ∀ entry ∈ left.store.scan Items.keyStart, entry.1 = Items.key 0 ∨ entry.1 = Items.key 1) ∧
      (∀ item ∈ Items.bucket left.store .initial, item.submission = none) ∧
      Items.bucket left.store .commitSent ≠ [] ∧
      (∀ item ∈ Items.bucket left.store .commitSent,
        item.index = 1 ∧ item.kind = .register ∧ item.fullName = "b.any" ∧
        (Processor.owner item).isOk = true ∧ item.Last Profile.sample.admin left.ledger) ∧
      Items.bucket left.store .commitDone = [] ∧ left.ledger.name? "b.any" = none := by
  decide +zetaReduce

set_option maxRecDepth 8000 in
/-- The scan of the next node comes to an end, and two transactions were accepted in all. -/
theorem ended : ∃ n, (resumed "0x10" n).job.isNone = true ∧ (resumed "0x10" n).heard.length = 2 ∧
    (hashes (resumed "0x10" n).heard).Nodup :=
  ⟨41, by decide +kernel⟩

/-- There are only the two registrations. -/
theorem index_cases {item : Item} (held : Items.Holds (stopped "0x10").backend.ground.store item) :
    item = waiting "0x10" ∨ item.index = 1 := by
  obtain ⟨⟨first, keys⟩, _⟩ := left_nobody
  have there : (Items.key item.index, Items.encode item) ∈
      (stopped "0x10").backend.ground.store.scan Items.keyStart :=
    Store.mem_scan.2 ⟨held.2, Items.keyStart_isPrefixOf_key _⟩
  rcases keys _ there with same | same
  · exact .inl (Items.holds_inj held first (Items.key_inj same))
  · exact .inr (Items.key_inj same)

theorem resumable : Resumable Profile.sample.admin (stopped "0x10").backend.ground := by
  obtain ⟨-, quiet, -, last, unrevealed, -⟩ := left_nobody
  refine ⟨fun item there submits => absurd (quiet item there) submits, fun item there => ?_,
    fun reveals => absurd unrevealed reveals⟩
  refine ⟨(last item there).2.2.2.2, fun other there' s submits => ?_⟩
  rw [quiet other there'] at submits
  cases submits

theorem commitments_apart : CommitmentsApart (stopped "0x10").backend.ground := by
  have nobody : ¬ (Processor.owner (waiting "0x10")).isOk = true := by decide
  have second : ∀ {item account}, Items.Holds (stopped "0x10").backend.ground.store item →
      Processor.owner item = .ok account → item.index = 1 := by
    intro item account held owned
    rcases index_cases held with rfl | index
    · rw [owned] at nobody
      exact absurd rfl nobody
    · exact index
  intro a b account account' heldA heldB ownedA ownedB
  obtain rfl := Items.holds_inj heldA heldB ((second heldA ownedA).trans (second heldB ownedB).symm)
  cases ownedA.symm.trans ownedB
  exact fun _ => rfl

end Interrupted

/-- The second registration is completed by the next node, although the nonce on record was used up. -/
theorem commitment_taken_up :
    let stopped := Interrupted.stopped "0x10"
    let resumed := Interrupted.resumed "0x10"
    ∃ n, (resumed n).job = none ∧ Clear ((resumed n).heard.drop stopped.heard.length) ∧
      ∃ final, Items.Holds (resumed n).backend.ground.store final ∧ final.fullName = "b.any" ∧
        final.status = .completed := by
  obtain ⟨-, -, waits, sent, -, unnamed⟩ := Interrupted.left_nobody
  obtain ⟨n, idle, few, distinct⟩ := Interrupted.ended
  have ended := Option.isNone_iff_eq_none.1 idle
  have accepted := few ▸ length_hashes_le (Interrupted.resumed "0x10" n).heard
  have room : ∀ {used accepted : Nat}, used = 0 → accepted ≤ 2 → used + accepted + 2 < 2 ^ 64 := by
    omega
  obtain ⟨item, there⟩ := List.exists_mem_of_ne_nil _ waits
  obtain ⟨index, kind, name, owned, -⟩ := sent item there
  obtain ⟨held, status⟩ := (Items.mem_bucket (Interrupted.tidy (by decide))).1 there
  obtain ⟨owner, owned⟩ : ∃ owner, Processor.owner item = .ok owner := by
    cases found : Processor.owner item with
    | ok owner => exact ⟨owner, rfl⟩
    | error error =>
      rw [found] at owned
      cases owned
  -- The other registration is for nobody, so the name of this one is asked for once.
  have alone : item.Alone (Interrupted.stopped "0x10").backend.ground := by
    intro other held' same
    rcases Interrupted.index_cases held' with rfl | index'
    · rw [name] at same
      exact absurd same (by decide)
    · exact index'.trans index.symm
  obtain ⟨clear_iff, completed⟩ := (restart_clear_iff (Interrupted.events "0x10")
    (Interrupted.within _) rfl (by decide) (by decide)
    (Interrupted.fits (by decide) _ _)).2 n ended distinct (room (by decide) accepted)
  refine ⟨n, ended, clear_iff.2 Interrupted.resumable, ?_⟩
  obtain ⟨final, there', origin, status'⟩ := completed Interrupted.resumable Interrupted.commitments_apart
    item owner held kind (by rw [status]; rfl) owned alone (.inl (by rw [name]; exact unnamed))
  exact ⟨final, there', (Item.fullName_eq_of_origin origin).trans name, status'⟩

/-- Something may be rejected after an interruption although nothing fails and all that was accepted is on
record. -/
theorem not_restart_clear :
    ¬ ∀ (backend : Backend) (events : List Event) (n : Nat),
      backend.Within .none → backend.profile.nonceOverride = none →
      backend.ground.store.scan Items.keyStart = [] →
      backend.ground.InStep backend.profile.admin →
      (∀ event ∈ events, event.Fits .none (· = backend.profile)) →
      let stopped := (⟨backend, none, none, []⟩ : Scene).run events
      (∀ hash ∈ hashes stopped.heard, ∃ item phase,
        Items.Holds stopped.backend.ground.store item ∧ (item.sent phase).hash = some hash) →
      Clear (((stopped.takenOver backend.profile).run (.replicate n .turn)).heard.drop
        stopped.heard.length) := by
  intro always
  obtain ⟨recorded, receipt, there, rejected⟩ := Interrupted.refused
  have clear := always Interrupted.backend (Interrupted.events Interrupted.owner) 6
    (Interrupted.within _) rfl (by decide) (by decide)
    (Interrupted.fits (by decide) _ _) fun hash accepted => ?_
  · exact absurd rejected (Bool.eq_false_iff.1 (clear receipt there))
  · have here : hash ∈ hashes (Interrupted.stopped Interrupted.owner).heard := accepted
    rw [recorded] at here
    obtain ⟨item, found, sent⟩ := List.mem_filterMap.1 here
    exact ⟨item, .commit, ((Items.mem_bucket (Interrupted.tidy (by decide))).1 found).1, sent⟩

end Scene

end Registrar
