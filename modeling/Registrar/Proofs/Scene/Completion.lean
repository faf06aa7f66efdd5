import Registrar.Proofs.Item.Backing
import Registrar.Proofs.Scene.ItemInHand

/-!
Completed means done. What stands behind the items in a store is carried through every scene,
whatever fails: `completed_on_ledger` says that an item is completed only if the ledger shows what it
asked for.
-/

namespace Registrar

open Item (Phase Status Kind)
open Ledger (Profile)

variable {known : List TxHash} {g : Ground} {item : Item} {tx : TxHandle}

theorem Backed.ready_failed (backed : Backed known g) (held : Items.Holds g.store item)
    (live : item.status.isTerminal = false) : Ready known g item item.failed :=
  backed.ready held rfl (Item.sent_failed item) fun completed =>
    absurd completed (Status.onFailure_ne_completed live)

theorem lastPhase_of_completed {phase : Phase} (waits : item.awaited = some phase)
    (completed : Status.next item.kind item.status = .completed) : phase = item.kind.lastPhase := by
  unfold Item.awaited at waits
  cases kind : item.kind <;> cases status : item.status <;> rw [kind, status] at waits completed <;>
    cases waits <;> first | rfl | cases completed

/-- An item is ready for its next status once the transaction that it waits for took effect. -/
theorem Backed.ready_noted (backed : Backed known g) (held : Items.Holds g.store item)
    (waits : item.Waits g tx) (landed : g.ledger.landed tx.hash = true) :
    Ready known (g.noting tx) item item.advanced := by
  obtain ⟨phase, hash, mined, awaits, recorded, there, rfl⟩ := waits
  rw [backed.keyed hash mined there] at landed
  have held' : Items.Holds (g.noting mined.handle).store item := Items.holds_withNonce.2 held
  refine (backed.note mined.handle).ready held' rfl (Item.sent_advanced item) ?_
  intro completed
  have last : item.landed g.ledger phase = true := by
    unfold Item.landed
    rw [recorded]
    exact landed
  exact lastPhase_of_completed awaits completed ▸ last

theorem not_mem_of_nodup_append {hash : TxHash} (distinct : (known ++ [hash]).Nodup) :
    hash ∉ known := by
  intro there
  exact (List.nodup_append.1 distinct).2.2 _ there _ (List.mem_singleton_self _) rfl

/-- No hash comes twice, and nothing else is needed for items and ledger to stay together. -/
theorem backed_carries (allowed : Profile → Prop) : Carries allowed List.Nodup Backed Ready where
  sane_before distinct := (List.nodup_append.1 distinct).1
  tidy backed := backed.tidy
  place ready := ⟨ready.held, ready.origin⟩
  accept _ backed held submits distinct :=
    have fresh := not_mem_of_nodup_append distinct
    ⟨backed.accept _ fresh, backed.ready_sent fresh held submits⟩
  fail _ backed held live := backed.ready_failed held live
  note _ backed held waits landed := ⟨backed.note _, backed.ready_noted held waits landed⟩
  write date backed ready := backed.write ready date
  insert backed new absent := backed.insert new absent
  ready_insert ready new absent := ready.insert new absent

theorem backed_start (profile : Profile) (calendar : Calendar) (blockTime : UInt64) :
    Backed [] (Scene.start profile calendar blockTime).backend.ground := by
  have none : ∀ item, ¬ Items.Holds Store.empty item := (Items.empty_of_scan rfl).2
  constructor
  · exact Items.tidy_empty
  · intro hash mined there
    cases there
  · intro item phase hash held
    exact absurd held (none item)
  · intro item held
    exact absurd held (none item)
  · intro item held
    exact absurd held (none item)
  · intro a b held
    exact absurd held (none a)
  · intro name
    exact Nat.zero_le _

/-- Everything may fail. -/
def Faults.all : Faults := ⟨True, True, True⟩

/-- Completed means done, whatever else is in the midst of happening: the name of a completed
registration is registered as it was asked for, no two of them share their name, and a name has at
least the seconds of its completed renewals. -/
theorem completed_on_ledger (profile : Profile) (calendar : Calendar) (blockTime : UInt64)
    (events : List Event) (fits : ∀ event ∈ events, event.Fits .all fun _ => True) :
    let scene := (Scene.start profile calendar blockTime).run events
    let ledger := scene.backend.books.ledger
    let done := Items.bucket scene.backend.books.store.store .completed
    (hashes scene.heard).Nodup →
    (∀ item ∈ done, item.kind = .register → item.Named ledger) ∧
      (∀ a ∈ done, ∀ b ∈ done, a.kind = .register → b.kind = .register → a.fullName = b.fullName →
        a = b) ∧
      ∀ name, min (UInt64.size - 1)
          ((done.filter fun item => item.kind = .renew && item.fullName = name).map
            (·.renewDuration.toNat)).sum ≤ ledger.renewed name := by
  intro scene ledger done distinct
  obtain ⟨hand, desk, _, held⟩ := Scene.run_keeps (backed_carries _).kept events
    (Scene.stands_start trivial calendar blockTime)
    (fun _ => ⟨backed_start profile calendar blockTime, trivial, trivial⟩) fits
  obtain ⟨backed, _, _⟩ := held distinct
  have within : ∀ {item}, item ∈ done →
      Items.Holds scene.backend.books.store.store item ∧ item.status = .completed :=
    (Items.mem_bucket backed.tidy).1
  have landed : ∀ {item}, item ∈ done → item.landed ledger item.kind.lastPhase = true :=
    fun there => backed.completed _ (within there).1 (within there).2
  refine ⟨?_, ?_, ?_⟩
  · intro item there kind
    have taken := landed there
    rw [kind] at taken
    exact backed.named item (within there).1 taken
  · intro a thereA b thereB kindA kindB same
    have takenA := landed thereA
    have takenB := landed thereB
    rw [kindA] at takenA
    rw [kindB] at takenB
    exact Items.holds_inj (within thereA).1 (within thereB).1
      (backed.sole a b (within thereA).1 (within thereB).1 takenA takenB same)
  · intro name
    have enough := backed.renewed name
    have fewer : ((done.filter fun item => item.kind = .renew && item.fullName = name).map
        (·.renewDuration.toNat)).sum ≤ ledger.credited name scene.backend.books.store.store := by
      apply Ledger.sum_bucket_le backed.tidy
      intro item held status chosen
      simp only [Bool.and_eq_true, decide_eq_true_eq] at chosen
      obtain ⟨kind, same⟩ := chosen
      have taken := backed.completed item held status
      rw [kind] at taken
      unfold Item.seconds
      rw [if_pos ⟨same, taken⟩]
    have enough : min (UInt64.size - 1) (ledger.credited name scene.backend.books.store.store) ≤
      ledger.renewed name := enough
    omega

namespace Renewal

/-- The next item that is written is not. -/
def fault : Store.FaultRule := ⟨⟨.put, Items.keyStart⟩, 0, some 1, .io ""⟩

/-- A name is asked for. Its commitment takes effect, but the item is not written and its work breaks off;
then all dies. The next node's scan finds the commitment and registers the name, which is then renewed. -/
def events : List Event :=
  let request : ItemRequest :=
    .register ⟨"a.any", "x", "0x10d5B0e279E5E4c1d1Df5F57DFB7E84813920a51", ""⟩
  .flatten
    [[.add request (.fill 1)], .replicate 5 .file, [.work 0], .replicate 15 .turn,
      [.lay [fault] []], .replicate 2 .turn, [.restart .sample, .scan], .replicate 34 .turn,
      [.add (.renew ⟨"a.any", 100⟩) (.fill 2)], .replicate 5 .file, [.work 1], .replicate 15 .turn]

theorem fits : ∀ event ∈ events, event.Fits .all fun _ => True := by
  intro event there
  simp only [events, List.mem_flatten, List.mem_cons, List.not_mem_nil, or_false, or_and_right,
    exists_or, exists_eq_left, List.mem_replicate] at there
  rcases there with
    rfl | ⟨_, rfl⟩ | rfl | ⟨_, rfl⟩ | rfl | ⟨_, rfl⟩ | (rfl | rfl) | ⟨_, rfl⟩ | rfl | ⟨_, rfl⟩ | rfl |
      ⟨_, rfl⟩
  all_goals
    first
    | trivial
    | exact ⟨fun _ => trivial, fun _ absent => nomatch absent⟩
    | exact show ItemRequest.Fits _ by decide

set_option maxRecDepth 8000 in
theorem ends :
    let scene := (Scene.start .sample ⟨7, 1⟩ 0).run events
    let done := Items.bucket scene.backend.books.store.store .completed
    (hashes scene.heard).Nodup ∧
      done.map (fun item => (item.kind, item.fullName)) = [(.register, "a.any"), (.renew, "a.any")] ∧
      min (UInt64.size - 1) ((done.filter fun item => item.kind = .renew && item.fullName = "a.any").map
        (·.renewDuration.toNat)).sum = 100 := by
  decide +kernel +zetaReduce

end Renewal

/-- A name is registered and renewed although a write failed on the way and another node went on. -/
theorem renewed_after_restart :
    let scene := (Scene.start .sample ⟨7, 1⟩ 0).run Renewal.events
    let ledger := scene.backend.books.ledger
    let done := Items.bucket scene.backend.books.store.store .completed
    done.map (fun item => (item.kind, item.fullName)) = [(.register, "a.any"), (.renew, "a.any")] ∧
      (∀ item ∈ done, item.kind = .register → item.Named ledger) ∧ 100 ≤ ledger.renewed "a.any" := by
  obtain ⟨distinct, ended, seconds⟩ := Renewal.ends
  obtain ⟨named, _, renewed⟩ :=
    completed_on_ledger .sample ⟨7, 1⟩ 0 Renewal.events Renewal.fits distinct
  exact ⟨ended, named, seconds.symm.trans_le (renewed "a.any")⟩

end Registrar
