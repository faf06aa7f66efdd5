import Registrar.Proofs.Item.Course

/-!
Nonces in step. An account is in step when the nonce that is offered for its next transaction is the
one that the ledger accepts. With a gateway that does not fail and an account in step, an item sends
what its kind and its owner have it send, nothing of it is rejected, and the account is in step again
once the item is at rest. Out of step, every submission is rejected.
-/

namespace Registrar

open Item (Phase Status)
open Ledger (Submission Profile)

namespace Ground

variable {g : Ground} {account : Address}

/-- The next nonce by the books is the next nonce of the ledger. -/
def InStep (g : Ground) (account : Address) : Prop :=
  g.nextNonce account = .ok (g.ledger.minedNonce account)

instance (g : Ground) (account : Address) : Decidable (g.InStep account) :=
  inferInstanceAs (Decidable (g.nextNonce account = .ok (g.ledger.minedNonce account)))

theorem get?_withItem (item : Item) :
    (g.withItem item).store.get? (Nonce.key account) = g.store.get? (Nonce.key account) := by
  unfold withItem Store.withItem
  rw [Store.get?_put, if_neg (Items.key_ne_nonce _ _).symm]

theorem nextNonce_withItem (item : Item) :
    (g.withItem item).nextNonce account = g.nextNonce account := by
  unfold nextNonce
  rw [get?_withItem]
  rfl

theorem inStep_withItem (item : Item) : (g.withItem item).InStep account ↔ g.InStep account := by
  unfold InStep
  rw [nextNonce_withItem]
  rfl

theorem nextNonce_noting (tx : TxHandle) :
    (g.noting tx).nextNonce tx.sender = .ok (saturatingAdd tx.nonce 1) := by
  have written : (g.noting tx).store.get? (Nonce.key tx.sender) =
      some (Nonce.Record.layout.write ⟨tx.sender, saturatingAdd tx.nonce 1⟩) := by
    unfold noting Store.withNonce
    rw [Store.get?_put, if_pos rfl]
  unfold nextNonce
  rw [written]
  dsimp only
  rw [Nonce.decode_record]

/-- A submission that takes no effect changes no nonce. -/
theorem inStep_accepting {nonce : UInt64} {s : Submission} (inStep : g.InStep account)
    (idle : g.ledger.effective s = false) : (g.accepting account nonce s).InStep account := by
  have mined : (g.accepting account nonce s).ledger.minedNonce account =
      g.ledger.minedNonce account := by
    unfold accepting
    rw [Ledger.minedNonce_after, idle]
    exact if_neg fun h => nomatch h.1
  unfold InStep nextNonce at *
  rw [mined]
  exact inStep

end Ground

theorem saturatingAdd_one {n : UInt64} (room : n.toNat + 1 < 2 ^ 64) : saturatingAdd n 1 = n + 1 := by
  apply UInt64.toNat_inj.1
  rw [toNat_saturatingAdd, UInt64.toNat_add]
  simp only [UInt64.size, UInt64.toNat_one]
  omega

namespace Item

variable {item : Item} {s : Submission} {g : Ground} {tx other : TxHandle}

theorem awaited_of_submission (h : item.submission = some s) : item.awaited = none := by
  unfold submission at h
  unfold awaited
  cases kind : item.kind <;> cases status : item.status <;> simp_all

theorem submission_of_awaited {phase : Phase} (h : item.awaited = some phase) :
    item.submission = none := by
  cases submits : item.submission with
  | none => rfl
  | some s =>
    rw [awaited_of_submission submits] at h
    cases h

theorem Waits.unique (h : item.Waits g tx) (h' : item.Waits g other) : tx = other := by
  obtain ⟨phase, hash, mined, waits, recorded, there, rfl⟩ := h
  obtain ⟨phase', hash', mined', waits', recorded', there', rfl⟩ := h'
  rw [waits] at waits'
  cases waits'
  rw [recorded] at recorded'
  cases recorded'
  rw [there] at there'
  cases there'
  rfl

theorem Waits.submission (h : item.Waits g tx) : item.submission = none := by
  obtain ⟨phase, _, _, waits, _⟩ := h
  exact submission_of_awaited waits

theorem Waits.live (h : item.Waits g tx) : item.status.isTerminal = false := by
  obtain ⟨phase, _, _, waits, _⟩ := h
  exact live_of_awaited waits

theorem Waits.not_stuck {profile : Profile} (h : item.Waits g tx) : ¬ item.Stuck profile g := by
  have quiet := h.submission
  obtain ⟨phase, hash, mined, waits, recorded, there, _⟩ := h
  rintro (⟨_, idle⟩ | ⟨submits, _⟩ | ⟨phase', waits', absent⟩)
  · rw [waits] at idle
    cases idle
  · rw [quiet] at submits
    cases submits
  · rw [waits] at waits'
    cases waits'
    rw [absent hash recorded] at there
    cases there

theorem not_stuck {profile : Profile} {nonce : UInt64} (submits : item.submission = some s)
    (offered : profile.offers g = .ok nonce) : ¬ item.Stuck profile g := by
  rintro (⟨quiet, _⟩ | ⟨_, error, unknown⟩ | ⟨_, waits, _⟩)
  · rw [submits] at quiet
    cases quiet
  · rw [offered] at unknown
    cases unknown
  · rw [awaited_of_submission submits] at waits
    cases waits

/-- An item that was just sent waits for its transaction. -/
theorem waits_of_sent {profile : Profile} {nonce date : UInt64} (submits : item.submission = some s) :
    let tx := g.ledger.nextTx profile.admin nonce
    let sent := (item.record tx s.phase).advanced.dated date
    let after := (g.accepting profile.admin nonce s).withItem sent
    sent.Waits after tx ∧ after.ledger.landed tx.hash = g.ledger.effective s := by
  intro tx sent after
  have there : after.ledger.tx? tx.hash = some ⟨tx, g.ledger.effective s⟩ := by
    refine (Ledger.tx?_after tx.hash).trans ?_
    exact if_pos rfl
  refine ⟨?_, ?_⟩
  · have awaits : sent.awaited = some s.phase ∧ (sent.sent s.phase).hash = some tx.hash := by
      have shape := submits
      unfold submission at shape
      split at shape
      · rename_i kind status
        obtain ⟨account, _, rfl⟩ := Option.map_eq_some_iff.1 shape
        simp [sent, awaited, advanced, dated, record, Item.sent, Submission.phase, kind, status,
          Status.next, Status.onSuccess, Status.ahead]
      · rename_i kind status
        obtain ⟨account, _, rfl⟩ := Option.map_eq_some_iff.1 shape
        simp [sent, awaited, advanced, dated, record, Item.sent, Submission.phase, kind, status,
          Status.next, Status.onSuccess, Status.ahead]
      · rename_i kind status
        cases shape
        simp [sent, awaited, advanced, dated, record, Item.sent, Submission.phase, kind, status,
          Status.next, Status.onSuccess, Status.ahead]
      · cases shape
    exact ⟨s.phase, tx.hash, _, awaits.1, awaits.2, there, rfl⟩
  · unfold Ledger.landed
    rw [there]
    rfl

end Item

namespace Stepped

variable {profile : Profile} {faults : Faults} {g g' : Ground} {item item' : Item}
  {receipts : List Receipt} {s : Submission} {nonce : UInt64} {tx : TxHandle}

/-- An item is sent where the offered nonce is the ledger's, and then waits for its transaction. -/
theorem sends (h : Stepped profile faults g item receipts g' item') (sure : ¬ faults.gateway)
    (submits : item.submission = some s) (offered : profile.offers g = .ok nonce)
    (same : nonce = g.ledger.minedNonce profile.admin) :
    ∃ tx date, tx = g.ledger.nextTx profile.admin nonce ∧ receipts = [.ok tx] ∧
      item' = (item.record tx s.phase).advanced.dated date ∧
      g' = (g.accepting profile.admin nonce s).withItem item' ∧
      item'.Waits g' tx ∧ g'.ledger.landed tx.hash = g.ledger.effective s := by
  cases h with
  | failed date live why =>
    rcases why with gateway | stuck | ⟨_, waits, _⟩
    · exact absurd gateway sure
    · exact absurd stuck (Item.not_stuck submits offered)
    · rw [waits.submission] at submits
      cases submits
  | rejected date _ offered' why =>
    rw [offered] at offered'
    cases offered'
    rcases why with gateway | ⟨other, _⟩
    · exact absurd gateway sure
    · exact absurd same other
  | sent date submits' offered' _ =>
    rw [submits] at submits'
    cases submits'
    rw [offered] at offered'
    cases offered'
    exact ⟨_, date, rfl, rfl, rfl, rfl, Item.waits_of_sent submits⟩
  | confirmed date waits _ =>
    rw [waits.submission] at submits
    cases submits

/-- An item fails where the offered nonce is another than the ledger's. -/
theorem refused (h : Stepped profile faults g item receipts g' item') (sure : ¬ faults.gateway)
    (submits : item.submission = some s) (offered : profile.offers g = .ok nonce)
    (other : nonce ≠ g.ledger.minedNonce profile.admin) :
    (∃ detail, receipts = [.error (.rejected detail)]) ∧ ∃ date,
      item' = item.failed.dated date ∧ g' = g.withItem item' := by
  cases h with
  | failed date live why =>
    rcases why with gateway | stuck | ⟨_, waits, _⟩
    · exact absurd gateway sure
    · exact absurd stuck (Item.not_stuck submits offered)
    · rw [waits.submission] at submits
      cases submits
  | rejected date _ _ why =>
    rcases why with gateway | ⟨_, detail, rfl⟩
    · exact absurd gateway sure
    · exact ⟨⟨detail, rfl⟩, date, rfl, rfl⟩
  | sent date submits' offered' same =>
    rw [offered] at offered'
    cases offered'
    exact absurd same other
  | confirmed date waits _ =>
    rw [waits.submission] at submits
    cases submits

/-- An item that waits goes on if its transaction took effect, and fails otherwise. -/
theorem waits (h : Stepped profile faults g item receipts g' item') (sure : ¬ faults.gateway)
    (waits : item.Waits g tx) :
    receipts = [] ∧ ∃ date,
      (g.ledger.landed tx.hash = true ∧ item' = item.advanced.dated date ∧
        g' = (g.noting tx).withItem item') ∨
      (g.ledger.landed tx.hash = false ∧ item' = item.failed.dated date ∧ g' = g.withItem item') := by
  cases h with
  | failed date live why =>
    rcases why with gateway | stuck | ⟨other, waits', lost⟩
    · exact absurd gateway sure
    · exact absurd stuck waits.not_stuck
    · cases waits.unique waits'
      exact ⟨rfl, date, .inr ⟨lost, rfl, rfl⟩⟩
  | rejected date submits | sent date submits =>
    rw [waits.submission] at submits
    cases submits
  | confirmed date waits' landed =>
    cases waits.unique waits'
    exact ⟨rfl, date, .inl ⟨landed, rfl, rfl⟩⟩

/-- An item with nothing to send and nothing to wait for fails. -/
theorem idle (h : Stepped profile faults g item receipts g' item')
    (quiet : item.submission = none) (waits : item.awaited = none) :
    receipts = [] ∧ ∃ date, item' = item.failed.dated date ∧ g' = g.withItem item' := by
  cases h with
  | failed date => exact ⟨rfl, date, rfl, rfl⟩
  | rejected date submits | sent date submits =>
    rw [quiet] at submits
    cases submits
  | confirmed date waits' _ =>
    obtain ⟨phase, _, _, waits', _⟩ := waits'
    rw [waits] at waits'
    cases waits'

end Stepped

variable {profile : Profile} {faults : Faults} {g g' : Ground} {item final : Item}
  {receipts : List Receipt} {s : Submission}

theorem offers_of_inStep (free : profile.nonceOverride = none) (inStep : g.InStep profile.admin) :
    profile.offers g = .ok (g.ledger.minedNonce profile.admin) := by
  unfold Ledger.Profile.offers Ground.offeredNonce
  rw [free]
  exact inStep

/-- An account is in step once its next nonce is noted after a transaction that took effect. -/
theorem Ground.inStep_confirmed {account : Address} {tx : TxHandle}
    (room : (g.ledger.minedNonce account).toNat + 1 < 2 ^ 64) (effective : g.ledger.effective s = true)
    (sent : tx = g.ledger.nextTx account (g.ledger.minedNonce account)) (before after : Item) :
    ((((g.accepting account (g.ledger.minedNonce account) s).withItem before).noting tx).withItem
      after).InStep account := by
  have sender : tx.sender = account := by rw [sent]; rfl
  have nonce : tx.nonce = g.ledger.minedNonce account := by rw [sent]; rfl
  have noted := @nextNonce_noting
    ((g.accepting account (g.ledger.minedNonce account) s).withItem before) tx
  rw [sender, nonce, saturatingAdd_one room] at noted
  rw [inStep_withItem]
  unfold InStep
  rw [noted]
  simp only [ledger_withItem, ledger_noting, ledger_accepting]
  rw [Ledger.minedNonce_after, if_pos ⟨effective, rfl⟩]

/-- In step, a submission is accepted. One that takes effect is waited for and leads two statuses
on; another one fails the item. The account is in step again either way. -/
theorem Driven.sends (driven : Driven profile faults g item receipts g' final)
    (sure : ¬ faults.gateway) (free : profile.nonceOverride = none)
    (inStep : g.InStep profile.admin) (room : (g.ledger.minedNonce profile.admin).toNat + 1 < 2 ^ 64)
    (submits : item.submission = some s) :
    ∃ tx later, receipts = .ok tx :: later ∧
      (g.ledger.effective s = true →
        ∃ g₂ item₂, item₂.origin = item.origin ∧
          item₂.status = Status.next item.kind (Status.next item.kind item.status) ∧
          g₂.ledger = g.ledger.send profile.admin s ∧ g₂.InStep profile.admin ∧
          Driven profile faults g₂ item₂ later g' final) ∧
      (g.ledger.effective s = false →
        later = [] ∧ final.status = Status.onFailure item.kind (Status.next item.kind item.status) ∧
          g'.ledger = g.ledger.send profile.admin s ∧ g'.InStep profile.admin) := by
  have offered := offers_of_inStep free inStep
  obtain ⟨_, _, _, rest, stepped, driven, rfl⟩ := driven.first (live_of_submission submits)
  obtain ⟨tx, date, sent, rfl, rfl, rfl, waits, landed⟩ := stepped.sends sure submits offered rfl
  obtain ⟨_, _, _, later, stepped, driven, rfl⟩ := driven.first waits.live
  obtain ⟨rfl, date', outcome⟩ := stepped.waits sure waits
  refine ⟨tx, later, rfl, ?_, ?_⟩
  · intro effective
    rw [effective] at landed
    rcases outcome with ⟨_, rfl, rfl⟩ | ⟨lost, _, _⟩
    · refine ⟨_, _, ?_, ?_, ?_, ?_, driven⟩
      · simp only [origin_dated, origin_advanced, Item.origin_record]
      · simp only [Item.advanced, Item.dated, Item.kind_record, Item.status_record]
      · simp only [Ground.ledger_withItem, Ground.ledger_noting, Ground.ledger_accepting, Ledger.send]
      · exact Ground.inStep_confirmed room effective sent _ _
    · rw [landed] at lost
      cases lost
  · intro dropped
    rw [dropped] at landed
    rcases outcome with ⟨taken, _, _⟩ | ⟨_, rfl, rfl⟩
    · rw [landed] at taken
      cases taken
    · obtain ⟨rfl, rfl, rfl⟩ := driven.at_rest (Status.isTerminal_onFailure _ _)
      refine ⟨rfl, ?_, ?_, ?_⟩
      · simp only [Item.advanced, Item.failed, Item.dated, Item.kind_record, Item.status_record]
      · simp only [Ground.ledger_withItem, Ground.ledger_accepting, Ledger.send]
      · rw [Ground.inStep_withItem, Ground.inStep_withItem]
        exact Ground.inStep_accepting inStep dropped

theorem minedNonce_send (ledger : Ledger) (account : Address) (s : Submission) :
    (ledger.send account s).minedNonce account =
      if ledger.effective s then ledger.minedNonce account + 1 else ledger.minedNonce account := by
  unfold Ledger.send
  rw [Ledger.minedNonce_after]
  simp

theorem minedNonce_send_le (ledger : Ledger) (account : Address) (s : Submission) :
    ((ledger.send account s).minedNonce account).toNat ≤ (ledger.minedNonce account).toNat + 1 := by
  rw [minedNonce_send]
  split
  · rw [UInt64.toNat_add, UInt64.toNat_one]
    exact Nat.mod_le _ _
  · exact Nat.le_succ _

/-- How many transactions may still be sent for an item. -/
def Item.toSend (item : Item) : Nat :=
  match item.kind, item.status with
  | .register, .initial => 2
  | .register, .commitSent | .register, .commitDone | .renew, .initial => 1
  | _, _ => 0

theorem Item.toSend_le (item : Item) : item.toSend ≤ 2 := by
  unfold toSend
  split <;> decide

theorem Item.toSend_failed (item : Item) (date : UInt64) : (item.failed.dated date).toSend = 0 := by
  unfold toSend failed dated
  cases item.kind <;> cases item.status <;> rfl

theorem Item.toSend_sent {tx : TxHandle} {phase : Phase} {date : UInt64}
    (submits : item.submission = some s) :
    ((item.record tx phase).advanced.dated date).toSend + 1 = item.toSend := by
  unfold submission at submits
  unfold toSend advanced dated
  dsimp only
  rw [kind_record, status_record]
  cases kind : item.kind <;> cases status : item.status <;> rw [kind, status] at submits <;>
    first | rfl | cases submits

theorem Item.toSend_advanced {phase : Phase} {date : UInt64} (waits : item.awaited = some phase) :
    (item.advanced.dated date).toSend = item.toSend := by
  unfold awaited at waits
  unfold toSend advanced dated
  cases kind : item.kind <;> cases status : item.status <;> rw [kind, status] at waits <;>
    first | rfl | cases waits

/-- An item uses up no more nonces than it has transactions to send, whatever fails. -/
theorem Stepped.grows {item' : Item} (stepped : Stepped profile faults g item receipts g' item') :
    (g'.ledger.minedNonce profile.admin).toNat + item'.toSend ≤
      (g.ledger.minedNonce profile.admin).toNat + item.toSend := by
  cases stepped with
  | failed date | rejected date =>
    rw [Item.toSend_failed]
    exact Nat.add_le_add_left (Nat.zero_le _) _
  | @sent s nonce date submits _ same =>
    have grows := minedNonce_send_le g.ledger profile.admin s
    have fewer := @Item.toSend_sent item s (g.ledger.nextTx profile.admin nonce) s.phase date submits
    rw [Ground.ledger_withItem, Ground.ledger_accepting, same]
    rw [same] at fewer
    unfold Ledger.send at grows
    omega
  | confirmed date waits =>
    obtain ⟨phase, _, _, waits, _⟩ := waits
    rw [Item.toSend_advanced waits]
    exact Nat.le_refl _

theorem Driven.grows (driven : Driven profile faults g item receipts g' final) :
    (g'.ledger.minedNonce profile.admin).toNat ≤
      (g.ledger.minedNonce profile.admin).toNat + item.toSend := by
  induction driven with
  | rest => exact Nat.le_add_right _ _
  | step stepped _ ih =>
    have first := stepped.grows
    omega

theorem owner_eq_of_origin {a b : Item} (h : a.origin = b.origin) :
    Processor.owner a = Processor.owner b :=
  (congrArg Processor.owner h :)

theorem registration_eq_of_origin {a b : Item} (h : a.origin = b.origin) (account : Address) :
    a.registration account = b.registration account :=
  (congrArg (fun item => Item.registration item account) h :)

/-- An item that stopped after its last submission took effect was completed. -/
theorem Driven.completed (driven : Driven profile faults g item receipts g' final)
    (completed : item.status = .completed) :
    receipts = [] ∧ g' = g ∧ final.status = .completed := by
  obtain ⟨rfl, rfl, rfl⟩ := driven.at_rest (by rw [completed]; rfl)
  exact ⟨rfl, rfl, completed⟩

/-- In step, a name that was committed to is registered if it is still free. -/
theorem Driven.reveals (driven : Driven profile faults g item receipts g' final)
    (sure : ¬ faults.gateway) (free : profile.nonceOverride = none)
    (inStep : g.InStep profile.admin) (room : (g.ledger.minedNonce profile.admin).toNat + 1 < 2 ^ 64)
    (kind : item.kind = .register) (status : item.status = .commitDone) {account : Address}
    (owned : Processor.owner item = .ok account) :
    let r := item.registration account
    (∃ tx, receipts = [.ok tx]) ∧ g'.ledger = g.ledger.send profile.admin (.register r) ∧
      g'.InStep profile.admin ∧
      final.status = if g.ledger.canRegister r then .completed else .error := by
  intro r
  have submits : item.submission = some (.register r) := by
    unfold Item.submission
    rw [kind, status, owned]
    rfl
  obtain ⟨tx, later, rfl, lands, drops⟩ := driven.sends sure free inStep room submits
  cases can : g.ledger.canRegister r with
  | true =>
    obtain ⟨g₂, item₂, _, status₂, ledger, inStep₂, driven⟩ := lands can
    rw [kind, status] at status₂
    obtain ⟨rfl, rfl, completed⟩ := driven.completed status₂
    exact ⟨⟨tx, rfl⟩, ledger, inStep₂, completed⟩
  | false =>
    obtain ⟨rfl, failed, ledger, inStep'⟩ := drops can
    rw [kind, status] at failed
    exact ⟨⟨tx, rfl⟩, ledger, inStep', failed⟩

/-- What is accepted for an item on its way from the beginning to the end. -/
def Item.sends (item : Item) : List Submission :=
  match item.kind, Processor.owner item with
  | .register, .ok account =>
    [.commit (item.registration account).commitment, .register (item.registration account)]
  | .register, .error _ => []
  | .renew, _ => [.renew item.fullName item.renewDuration]

/-- An item with nothing to send and nothing to wait for fails, and that is all. -/
theorem Driven.idles (driven : Driven profile faults g item receipts g' final)
    (live : item.status.isTerminal = false) (quiet : item.submission = none)
    (idle : item.awaited = none) :
    receipts = [] ∧ g' = g.withItem final ∧ ∃ date, final = item.failed.dated date := by
  obtain ⟨_, _, _, later, stepped, driven, rfl⟩ := driven.first live
  obtain ⟨rfl, date, rfl, rfl⟩ := stepped.idle quiet idle
  obtain ⟨rfl, rfl, rfl⟩ := driven.at_rest (Status.isTerminal_onFailure _ _)
  exact ⟨rfl, rfl, date, rfl⟩

theorem awaited_of_initial (initial : item.status = .initial) : item.awaited = none := by
  unfold Item.awaited
  cases item.kind <;> rw [initial]

/-- How an item ends that begins on a ledger in step. -/
def Item.verdict (item : Item) (ledger : Ledger) : Status :=
  match item.kind, Processor.owner item with
  | .register, .ok _ => if (ledger.name? item.fullName).isSome then .error else .completed
  | .register, .error _ => .commitError
  | .renew, _ => if (ledger.name? item.fullName).isSome then .completed else .renewError

/-- In step, an item that was not begun ends by its verdict, with all that it sends accepted. -/
theorem Driven.settles (driven : Driven profile faults g item receipts g' final)
    (sure : ¬ faults.gateway) (free : profile.nonceOverride = none)
    (inStep : g.InStep profile.admin) (room : (g.ledger.minedNonce profile.admin).toNat + 2 < 2 ^ 64)
    (initial : item.status = .initial) :
    final.status = item.verdict g.ledger ∧
      g'.ledger = item.sends.foldl (Ledger.send profile.admin) g.ledger ∧
      (∃ txs : List TxHandle, receipts = txs.map .ok ∧ txs.length = item.sends.length) ∧
      g'.InStep profile.admin := by
  have live : item.status.isTerminal = false := by rw [initial]; rfl
  cases kind : item.kind with
  | renew =>
    have submits : item.submission = some (.renew item.fullName item.renewDuration) := by
      unfold Item.submission
      rw [kind, initial]
    unfold Item.verdict Item.sends
    rw [kind]
    dsimp only
    obtain ⟨tx, later, rfl, lands, drops⟩ := driven.sends sure free inStep (by omega) submits
    have named : g.ledger.effective (.renew item.fullName item.renewDuration) =
      (g.ledger.name? item.fullName).isSome := rfl
    rw [named] at lands drops
    cases known : (g.ledger.name? item.fullName).isSome with
    | true =>
      obtain ⟨g₂, item₂, _, status₂, ledger, inStep₂, driven⟩ := lands known
      rw [kind, initial] at status₂
      obtain ⟨rfl, rfl, completed⟩ := driven.completed status₂
      exact ⟨completed, ledger, ⟨[tx], rfl, rfl⟩, inStep₂⟩
    | false =>
      obtain ⟨rfl, failed, ledger, inStep'⟩ := drops known
      rw [kind, initial] at failed
      exact ⟨failed, ledger, ⟨[tx], rfl, rfl⟩, inStep'⟩
  | register =>
    unfold Item.verdict Item.sends
    rw [kind]
    cases owned : Processor.owner item with
    | error error =>
      have quiet : item.submission = none := by
        unfold Item.submission
        rw [kind, initial, owned]
        rfl
      obtain ⟨rfl, rfl, date, rfl⟩ := driven.idles live quiet (awaited_of_initial initial)
      refine ⟨?_, rfl, ⟨[], rfl, rfl⟩, (Ground.inStep_withItem _).2 inStep⟩
      simp only [Item.failed, Item.dated, kind, initial]
      rfl
    | ok account =>
      dsimp only
      have submits : item.submission = some (.commit (item.registration account).commitment) := by
        unfold Item.submission
        rw [kind, initial, owned]
        rfl
      obtain ⟨tx, later, rfl, lands, _⟩ := driven.sends sure free inStep (by omega) submits
      obtain ⟨g₂, item₂, origin, status₂, ledger, inStep₂, driven⟩ := lands rfl
      rw [kind, initial] at status₂
      have room₂ : (g₂.ledger.minedNonce profile.admin).toNat + 1 < 2 ^ 64 := by
        have grows := minedNonce_send_le g.ledger profile.admin
          (.commit (item.registration account).commitment)
        rw [ledger]
        omega
      obtain ⟨⟨tx', rfl⟩, ledger', inStep', status⟩ := driven.reveals sure free inStep₂ room₂
        ((Item.kind_eq_of_origin origin).trans kind) status₂ ((owner_eq_of_origin origin).trans owned)
      rw [registration_eq_of_origin origin] at ledger' status
      refine ⟨?_, ?_, ⟨[tx, tx'], rfl, rfl⟩, inStep'⟩
      · have fresh : g₂.ledger.canRegister (item.registration account) =
            (g.ledger.name? item.fullName).isNone := by
          rw [ledger]
          exact Ledger.canRegister_after_commit _
        rw [status, fresh]
        cases g.ledger.name? item.fullName <;> rfl
      · rw [ledger', ledger]
        rfl

end Registrar
