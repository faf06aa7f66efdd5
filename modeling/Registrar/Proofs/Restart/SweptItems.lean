import Registrar.Proofs.Queue.AddAndWork
import Registrar.Proofs.Restart.Trace

/-!
Items driven one after the other, and what that leaves of the ledger. Names and commitments that are
no concern of these items stay, and so do transactions under other hashes (`Accepts`). How far the
nonce on record is right decides what becomes of an item in each status.
-/

namespace Registrar

open Item (Phase Status)
open Ledger (Submission Profile)

/-- The ledger accepts submissions of an account one after the other. -/
inductive Accepts (account : Address) (asks : Submission → Prop) :
    Ledger → List TxHash → Ledger → Prop where
  | nothing {ledger} : Accepts account asks ledger [] ledger
  | send {ledger s later ledger'} :
      asks s → Accepts account asks (ledger.send account s) later ledger' →
      Accepts account asks ledger
        ((ledger.nextTx account (ledger.minedNonce account)).hash :: later) ledger'

/-- A submission that the item makes in some status. -/
def Item.Asks (item : Item) (s : Submission) : Prop :=
  ∃ other : Item, other.origin = item.origin ∧ other.submission = some s

/-- A submission may change what the ledger has under a name. -/
def Ledger.Submission.Concerns (s : Submission) (name : String) : Prop :=
  match s with
  | .commit _ => False
  | .register r => name = r.fullName
  | .renew fullName _ => name = fullName

namespace Accepts

variable {account : Address} {asks asks' : Submission → Prop} {ledger middle ledger' : Ledger}
  {first later hashes : List TxHash}

theorem append (before : Accepts account asks ledger first middle)
    (after : Accepts account asks middle later ledger') :
    Accepts account asks ledger (first ++ later) ledger' := by
  induction before with
  | nothing => exact after
  | send asked _ ih => exact .send asked (ih after)

theorem mono (accepts : Accepts account asks ledger hashes ledger')
    (more : ∀ s, asks s → asks' s) : Accepts account asks' ledger hashes ledger' := by
  induction accepts with
  | nothing => exact .nothing
  | send asked _ ih => exact .send (more _ asked) ih

theorem tx? (accepts : Accepts account asks ledger hashes ledger') {hash : TxHash}
    (other : hash ∉ hashes) : ledger'.tx? hash = ledger.tx? hash := by
  induction accepts with
  | nothing => rfl
  | send _ _ ih =>
    rw [List.mem_cons, not_or] at other
    rw [ih other.2]
    unfold Ledger.send
    rw [Ledger.tx?_after, if_neg other.1]

theorem name? (accepts : Accepts account asks ledger hashes ledger') {name : String}
    (unconcerned : ∀ s, asks s → ¬ s.Concerns name) : ledger'.name? name = ledger.name? name := by
  induction accepts with
  | nothing => rfl
  | @send ledger s _ _ asked _ ih =>
    rw [ih]
    unfold Ledger.send
    cases s with
    | commit commitment => rfl
    | register r =>
      have other : name ≠ r.fullName := unconcerned _ asked
      rw [Ledger.name?_after_register, if_neg fun both => other both.2]
    | renew fullName duration =>
      have other : name ≠ fullName := unconcerned _ asked
      rw [Ledger.name?_after_renew, if_neg other]

theorem committed (accepts : Accepts account asks ledger hashes ledger') {commitment : Commitment}
    (others : ∀ r, asks (.register r) → commitment ≠ r.commitment)
    (there : ledger.commitments.contains commitment = true) :
    ledger'.commitments.contains commitment = true := by
  induction accepts with
  | nothing => exact there
  | @send ledger s _ _ asked _ ih =>
    apply ih
    unfold Ledger.send
    cases s with
    | commit other => rw [Ledger.commitment_after_commit, there, Bool.or_true]
    | register r =>
      rw [Ledger.commitment_after_register, there, decide_eq_false (others r asked), Bool.and_false]
      rfl
    | renew fullName duration =>
      rw [Ledger.commitment_after_renew]
      exact there

/-- The next nonce only grows, by at most one for each transaction. -/
theorem nonce (accepts : Accepts account asks ledger hashes ledger')
    (room : (ledger.minedNonce account).toNat + hashes.length < 2 ^ 64) :
    (ledger.minedNonce account).toNat ≤ (ledger'.minedNonce account).toNat ∧
      (ledger'.minedNonce account).toNat ≤ (ledger.minedNonce account).toNat + hashes.length := by
  induction accepts with
  | nothing => exact ⟨Nat.le_refl _, Nat.le_refl _⟩
  | @send ledger s later _ _ _ ih =>
    rw [List.length_cons] at room ⊢
    have most := minedNonce_send_le ledger account s
    have least : (ledger.minedNonce account).toNat ≤ ((ledger.send account s).minedNonce account).toNat := by
      rw [minedNonce_send]
      split
      · rw [UInt64.toNat_add, UInt64.toNat_one, Nat.mod_eq_of_lt (by omega)]
        exact Nat.le_succ _
      · exact Nat.le_refl _
    obtain ⟨more, fewer⟩ := ih (by omega)
    exact ⟨least.trans more, by omega⟩

end Accepts

/-- Items that the store holds are driven, one after the other. -/
inductive Swept (profile : Profile) (faults : Faults) :
    Ground → List Item → List Receipt → Ground → Prop where
  | nil {g} : Swept profile faults g [] [] g
  | cons {g item receipts g' final rest later g''} :
      Items.Holds g.store item → Driven profile faults g item receipts g' final →
      Swept profile faults g' rest later g'' →
      Swept profile faults g (item :: rest) (receipts ++ later) g''

/-- Nothing that was submitted was rejected. -/
def Clear (receipts : List Receipt) : Prop := ∀ receipt ∈ receipts, Receipt.isRejected receipt = false

theorem clear_append {first later : List Receipt} : Clear (first ++ later) ↔ Clear first ∧ Clear later :=
  List.forall_mem_append

variable {profile : Profile} {faults : Faults} {g g' : Ground} {item item' final other : Item}
  {items first later : List Item} {receipts : List Receipt} {s : Submission} {account : Address}
  {tx : TxHandle}

section

theorem Item.Asks.of_origin {a b : Item} (asked : a.Asks s) (same : a.origin = b.origin) : b.Asks s := by
  obtain ⟨other, origin, submits⟩ := asked
  exact ⟨other, origin.trans same, submits⟩

theorem Item.Asks.name {name : String} (asked : item.Asks s) (concerns : s.Concerns name) :
    name = item.fullName := by
  obtain ⟨other, origin, submits⟩ := asked
  have same := Item.fullName_eq_of_origin origin
  rcases submission_cases submits with ⟨_, _, _, _, rfl⟩ | ⟨_, _, _, _, rfl⟩ | ⟨_, _, rfl⟩
  · exact concerns.elim
  · exact Eq.trans concerns same
  · exact Eq.trans concerns same

theorem Item.Asks.commitment {r : Registration} (asked : item.Asks (.register r)) :
    item.commitment? = some r.commitment := by
  obtain ⟨other, origin, submits⟩ := asked
  obtain ⟨owner, owned, rfl⟩ := register_of_submission submits
  rw [← Item.commitment?_eq_of_origin origin]
  exact Item.commitment?_of_owner owned

theorem Stepped.accepts (stepped : Stepped profile faults g item receipts g' item') :
    Accepts profile.admin item.Asks g.ledger (hashes receipts) g'.ledger := by
  cases stepped with
  | failed | rejected | confirmed => exact .nothing
  | sent date submits _ same =>
    subst same
    exact .send ⟨item, rfl, submits⟩ .nothing

/-- What the work on an item does to the ledger is to submit for it. -/
theorem Driven.accepts (driven : Driven profile faults g item receipts g' final) :
    Accepts profile.admin item.Asks g.ledger (hashes receipts) g'.ledger := by
  induction driven with
  | rest => exact .nothing
  | step stepped _ ih =>
    rw [hashes_append]
    exact stepped.accepts.append (ih.mono fun _ asked => asked.of_origin stepped.origin)

theorem Stepped.offered (stepped : Stepped profile faults g item receipts g' item')
    (offered : ∃ nonce, g.nextNonce account = .ok nonce) :
    ∃ nonce, g'.nextNonce account = .ok nonce := by
  cases stepped with
  | failed | rejected =>
    rw [Ground.nextNonce_withItem]
    exact offered
  | sent =>
    rw [Ground.nextNonce_withItem]
    exact offered_accepting offered
  | confirmed =>
    rw [Ground.nextNonce_withItem]
    exact offered_noting offered

theorem Driven.offered (driven : Driven profile faults g item receipts g' final)
    (offered : ∃ nonce, g.nextNonce account = .ok nonce) :
    ∃ nonce, g'.nextNonce account = .ok nonce := by
  induction driven with
  | rest => exact offered
  | step stepped _ ih => exact ih (stepped.offered offered)

end

namespace Swept

/-- Some items may be looked at before the rest. -/
theorem split (swept : Swept profile faults g (first ++ later) receipts g') :
    ∃ middle before after, Swept profile faults g first before middle ∧
      Swept profile faults middle later after g' ∧ receipts = before ++ after := by
  induction first generalizing g receipts with
  | nil => exact ⟨g, [], receipts, .nil, swept, rfl⟩
  | cons item rest ih =>
    cases swept with
    | cons held driven swept =>
      obtain ⟨middle, before, after, swept₁, swept₂, rfl⟩ := ih swept
      exact ⟨middle, _, after, .cons held driven swept₁, swept₂, (List.append_assoc _ _ _).symm⟩

theorem accepts (swept : Swept profile faults g items receipts g') :
    Accepts profile.admin (fun s => ∃ item ∈ items, item.Asks s) g.ledger (hashes receipts)
      g'.ledger := by
  induction swept with
  | nil => exact .nothing
  | @cons _ item _ _ _ rest _ _ _ driven _ ih =>
    rw [hashes_append]
    apply Accepts.append
    · exact driven.accepts.mono fun s asked => ⟨item, List.mem_cons_self, asked⟩
    · apply ih.mono
      rintro s ⟨other, there, asked⟩
      exact ⟨other, List.mem_cons_of_mem _ there, asked⟩

theorem offered (swept : Swept profile faults g items receipts g')
    (offered : ∃ nonce, g.nextNonce account = .ok nonce) :
    ∃ nonce, g'.nextNonce account = .ok nonce := by
  induction swept with
  | nil => exact offered
  | cons _ driven _ ih => exact ih (driven.offered offered)

/-- Items that are not driven stay as they are. -/
theorem keeps (swept : Swept profile faults g items receipts g')
    (apart : ∀ item ∈ items, other.index ≠ item.index) :
    Items.Holds g'.store other ↔ Items.Holds g.store other := by
  induction swept with
  | nil => exact Iff.rfl
  | cons held driven _ ih =>
    have frame := driven.frame held
    rw [ih fun item there => apart item (List.mem_cons_of_mem _ there)]
    exact frame.others other (apart _ List.mem_cons_self)

end Swept

/-- Indices of items that the store holds are worked on by driving these items. -/
theorem swept_of_worked (worked : Worked profile faults g (items.map (·.index)) receipts g')
    (held : ∀ item ∈ items, Items.Holds g.store item) (apart : (items.map (·.index)).Nodup) :
    Swept profile faults g items receipts g' := by
  induction items generalizing g receipts with
  | nil =>
    cases worked
    exact .nil
  | cons item rest ih =>
    rw [List.map_cons] at worked apart
    obtain ⟨apart, apart'⟩ := List.nodup_cons.1 apart
    have here := held item List.mem_cons_self
    generalize index : item.index = i at worked
    cases worked with
    | drive held' driven worked =>
      cases Items.holds_inj here held' index
      refine .cons here driven (ih worked (fun other there => ?_) apart')
      have distinct : other.index ≠ item.index := by
        intro same
        exact apart (same ▸ List.mem_map_of_mem there)
      exact ((driven.frame here).others other distinct).2 (held other (List.mem_cons_of_mem _ there))
    | miss absent =>
      rw [← index, here.2] at absent
      cases absent

/-- No submission that the item makes would take effect. -/
def Item.Idle (item : Item) (ledger : Ledger) : Prop :=
  ∀ s, item.submission = some s → ledger.effective s = false

theorem effective_send_idle {ledger : Ledger} (idle : ledger.effective s = false) (other : Submission) :
    (ledger.send account s).effective other = ledger.effective other := by
  have names : ∀ name, (ledger.send account s).name? name = ledger.name? name := by
    intro name
    unfold Ledger.send
    cases s with
    | commit commitment => cases idle
    | register r =>
      have refused : ¬ ledger.canRegister r = true := Bool.eq_false_iff.1 idle
      rw [Ledger.name?_after_register, if_neg fun both => refused both.1]
    | renew fullName duration =>
      have unknown : ledger.name? fullName = none := Option.not_isSome_iff_eq_none.1 (Bool.eq_false_iff.1 idle)
      rw [Ledger.name?_after_renew, unknown]
      split
      · rename_i same
        rw [same, unknown]
        rfl
      · rfl
  have commitments : ∀ commitment, (ledger.send account s).commitments.contains commitment =
      ledger.commitments.contains commitment := by
    intro commitment
    unfold Ledger.send
    cases s with
    | commit commitment => cases idle
    | register r =>
      have refused : ledger.canRegister r = false := idle
      rw [Ledger.commitment_after_register, refused, Bool.false_and, Bool.not_false, Bool.and_true]
    | renew fullName duration => exact Ledger.commitment_after_renew _ _ _
  cases other with
  | commit commitment => rfl
  | register r =>
    apply Bool.eq_iff_iff.2
    have before := @Ledger.canRegister_iff ledger r
    have after := @Ledger.canRegister_iff (ledger.send account s) r
    rw [commitments, names] at after
    exact after.trans before.symm
  | renew fullName duration =>
    have known : (ledger.send account s).effective (.renew fullName duration) =
      ((ledger.send account s).name? fullName).isSome := rfl
    rw [known, names]
    rfl

namespace Driven

/-- In step, an item that was not begun leaves the account in step. The next nonce stays the same
exactly if the item is idle. -/
theorem begins (driven : Driven profile faults g item receipts g' final) (sure : ¬ faults.gateway)
    (free : profile.nonceOverride = none) (inStep : g.InStep profile.admin)
    (room : (g.ledger.minedNonce profile.admin).toNat + (hashes receipts).length + 2 < 2 ^ 64)
    (initial : item.status = .initial) :
    g'.InStep profile.admin ∧ Clear receipts ∧
      (item.Idle g.ledger → g'.ledger.minedNonce profile.admin = g.ledger.minedNonce profile.admin ∧
        ∀ other, g'.ledger.effective other = g.ledger.effective other) ∧
      (¬ item.Idle g.ledger →
        (g.ledger.minedNonce profile.admin).toNat < (g'.ledger.minedNonce profile.admin).toNat) := by
  have live : item.status.isTerminal = false := by rw [initial]; rfl
  obtain ⟨_, _, ⟨txs, heard, _⟩, inStep'⟩ := driven.settles sure free inStep (by omega) initial
  have clear : Clear receipts := by
    intro receipt there
    rw [heard] at there
    obtain ⟨tx, _, rfl⟩ := List.mem_map.1 there
    rfl
  refine ⟨inStep', clear, ?_⟩
  cases submits : item.submission with
  | none =>
    obtain ⟨rfl, rfl, _⟩ := driven.idles live submits (awaited_of_initial initial)
    refine ⟨fun _ => ⟨rfl, fun _ => rfl⟩, fun busy => absurd (fun s submits' => ?_) busy⟩
    rw [submits] at submits'
    cases submits'
  | some s =>
    obtain ⟨tx, later, same, lands, drops⟩ := driven.sends sure free inStep (by omega) submits
    cases effective : g.ledger.effective s with
    | true =>
      refine ⟨fun idle => ?_, fun _ => ?_⟩
      · have dropped := idle s submits
        rw [effective] at dropped
        cases dropped
      · obtain ⟨g₂, item₂, _, _, ledger, _, driven⟩ := lands effective
        have counted : (hashes receipts).length = (hashes later).length + 1 := by
          rw [same]
          rfl
        have next : (g₂.ledger.minedNonce profile.admin).toNat =
            (g.ledger.minedNonce profile.admin).toNat + 1 := by
          rw [ledger, minedNonce_send, if_pos effective, UInt64.toNat_add, UInt64.toNat_one]
          exact Nat.mod_eq_of_lt (by omega)
        have grows := driven.accepts.nonce (by omega)
        omega
    | false =>
      obtain ⟨_, _, ledger, _⟩ := drops effective
      rw [ledger, minedNonce_send, effective]
      refine ⟨fun _ => ⟨rfl, effective_send_idle effective⟩, fun busy => absurd (fun s' submits' => ?_) busy⟩
      rw [submits] at submits'
      cases submits'
      exact effective

/-- An item whose commitment took effect goes on from there with the nonce after that. -/
theorem confirms (driven : Driven profile faults g item receipts g' final) (sure : ¬ faults.gateway)
    (waits : item.Waits g tx) (landed : g.ledger.landed tx.hash = true) :
    ∃ g₂ item₂, item₂.origin = item.origin ∧ item₂.status = Status.next item.kind item.status ∧
      g₂.ledger = g.ledger ∧ g₂.nextNonce tx.sender = .ok (saturatingAdd tx.nonce 1) ∧
      Driven profile faults g₂ item₂ receipts g' final := by
  obtain ⟨_, _, _, later, stepped, next, rfl⟩ := driven.first waits.live
  obtain ⟨rfl, date, outcome⟩ := stepped.waits sure waits
  rcases outcome with ⟨_, rfl, rfl⟩ | ⟨lost, _, _⟩
  · refine ⟨(g.noting tx).withItem (item.advanced.dated date), item.advanced.dated date, rfl, rfl, rfl,
      ?_, next⟩
    rw [Ground.nextNonce_withItem]
    exact Ground.nextNonce_noting tx
  · rw [landed] at lost
    cases lost

/-- An item that waits for its last transaction sends nothing more, and is completed if that took
effect. -/
theorem ends (driven : Driven profile faults g item receipts g' final)
    (status : item.status = .registerSent ∨ item.status = .renewSent) :
    receipts = [] ∧ ∀ tx, ¬ faults.gateway → item.Waits g tx → g.ledger.landed tx.hash = true →
      final.status = .completed := by
  have live : item.status.isTerminal = false := by rcases status with status | status <;> rw [status] <;> rfl
  have quiet : item.submission = none := by
    unfold Item.submission
    cases item.kind <;> rcases status with status | status <;> rw [status]
  have last : ∀ {phase}, item.awaited = some phase → item.advanced.status = .completed := by
    intro phase awaits
    unfold Item.awaited at awaits
    rw [Item.status_advanced]
    cases kind : item.kind <;> rcases status with status | status <;> rw [kind, status] at awaits <;>
      rw [status] <;> first | rfl | cases awaits
  obtain ⟨_, _, _, later, stepped, driven, rfl⟩ := driven.first live
  cases stepped with
  | failed date _ why =>
    obtain ⟨rfl, rfl, rfl⟩ := driven.at_rest (Status.isTerminal_onFailure _ _)
    refine ⟨rfl, fun tx sure waits landed => ?_⟩
    rcases why with gateway | stuck | ⟨other, waits', lost⟩
    · exact absurd gateway sure
    · exact absurd stuck waits.not_stuck
    · cases waits.unique waits'
      rw [landed] at lost
      cases lost
  | rejected _ submits | sent _ submits =>
    rw [quiet] at submits
    cases submits
  | confirmed date waits _ =>
    obtain ⟨phase, _, _, awaits, _⟩ := waits
    have completed := last awaits
    obtain ⟨rfl, rfl, rfl⟩ := driven.at_rest (by
      change item.advanced.status.isTerminal = true
      rw [completed]
      rfl)
    exact ⟨rfl, fun _ _ _ _ => completed⟩

end Driven

end Registrar
