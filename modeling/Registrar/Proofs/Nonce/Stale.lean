import Registrar.Proofs.Queue.AddAndWork

/-!
Nonces left behind. The next nonce of an account is put on record only once a transaction is
confirmed. When the gateway fails between the two, after a transaction has taken effect, a record that
is there already keeps the nonce that was used up, and nothing ever compares it with the ledger:
`later_completed_iff` says that this is the one way in which the errors met by one item reach the
items after it, and that it then ends all of them.
-/

namespace Registrar

open Item (Phase Status)
open Ledger (Submission Profile)

namespace Ground

variable {g : Ground} {account : Address}

theorem recorded_withItem (item : Item) : (g.withItem item).Recorded account ↔ g.Recorded account := by
  unfold Recorded
  rw [get?_withItem]

/-- Without a record the ledger is asked. -/
theorem inStep_of_not_recorded (absent : ¬ g.Recorded account) : g.InStep account := by
  have none : g.store.get? (Nonce.key account) = none := by
    cases found : g.store.get? (Nonce.key account) with
    | none => rfl
    | some bytes => exact absurd (by unfold Recorded; rw [found]; rfl) absent
  unfold InStep nextNonce
  rw [none]

theorem nextNonce_accepting {nonce : UInt64} {s : Submission} {sender : Address}
    (recorded : g.Recorded account) :
    (g.accepting sender nonce s).nextNonce account = g.nextNonce account := by
  obtain ⟨bytes, found⟩ := Option.isSome_iff_exists.1 recorded
  unfold nextNonce
  rw [store_accepting, found]

/-- A transaction that takes effect leaves a nonce on record behind. -/
theorem accepting_cases {nonce : UInt64} {s : Submission} (inStep : g.InStep account)
    (effective : g.ledger.effective s = true) :
    (¬ g.Recorded account ∧ (g.accepting account nonce s).InStep account) ∨
      (g.Recorded account ∧ (g.accepting account nonce s).OutOfStep account) := by
  by_cases recorded : g.Recorded account
  · refine .inr ⟨recorded, g.ledger.minedNonce account, ?_, ?_⟩
    · rw [nextNonce_accepting recorded]
      exact inStep
    · rw [ledger_accepting, Ledger.minedNonce_after, if_pos ⟨effective, rfl⟩]
      intro same
      have differs := congrArg UInt64.toNat same
      have small := (g.ledger.minedNonce account).toNat_lt
      rw [UInt64.toNat_add, UInt64.toNat_one] at differs
      omega
  · exact .inl ⟨recorded, inStep_of_not_recorded recorded⟩

end Ground

namespace Item

/-- The status of an item whose transaction of a phase was not confirmed. -/
def Status.unconfirmed : Phase → Status
  | .commit => .commitError
  | .register => .error
  | .renew => .renewError

/-- The item failed although the transaction that it waited for took effect. -/
def Unconfirmed (item : Item) (ledger : Ledger) : Prop :=
  ∃ phase hash, item.status = Status.unconfirmed phase ∧ (item.sent phase).hash = some hash ∧
    ledger.landed hash = true

end Item

variable {profile : Profile} {faults : Faults} {g g' : Ground} {item final : Item}
  {receipts : List Receipt} {s : Submission}

/-- How the errors of a gateway may end an item that sends in step: it is refused before anything
happens, it is stopped before its transaction is confirmed, or it goes on. -/
inductive Strayed (profile : Profile) (faults : Faults) (g : Ground) (item : Item) (s : Submission)
    (g' : Ground) (final : Item) : Prop where
  | refused :
      final.status = Status.onFailure item.kind item.status →
      (∀ phase, final.sent phase = item.sent phase) → g'.InStep profile.admin →
      Strayed profile faults g item s g' final
  | stopped (hash : TxHash) :
      final.status = Status.onFailure item.kind (Status.next item.kind item.status) →
      (final.sent s.phase).hash = some hash →
      g'.ledger.landed hash = g.ledger.effective s →
      (g.ledger.effective s = false ∧ g'.InStep profile.admin ∨
        g.ledger.effective s = true ∧
          (¬ g'.Recorded profile.admin ∧ g'.InStep profile.admin ∨
            g'.Recorded profile.admin ∧ g'.OutOfStep profile.admin)) →
      Strayed profile faults g item s g' final
  | lands {g₂ item₂ later} :
      item₂.origin = item.origin →
      item₂.status = Status.next item.kind (Status.next item.kind item.status) →
      g₂.InStep profile.admin → g₂.ledger = g.ledger.send profile.admin s →
      Driven profile faults g₂ item₂ later g' final →
      Strayed profile faults g item s g' final

theorem Driven.strays (driven : Driven profile faults g item receipts g' final)
    (inStep : g.InStep profile.admin) (room : (g.ledger.minedNonce profile.admin).toNat + 1 < 2 ^ 64)
    (submits : item.submission = some s) : Strayed profile faults g item s g' final := by
  obtain ⟨_, _, _, _, stepped, driven, rfl⟩ := driven.first (live_of_submission submits)
  have refused : ∀ {date rest}, Driven profile faults (g.withItem (item.failed.dated date))
      (item.failed.dated date) rest g' final → Strayed profile faults g item s g' final := by
    intro date rest driven
    obtain ⟨rfl, rfl, rfl⟩ := driven.at_rest (Status.isTerminal_onFailure _ _)
    refine .refused rfl (fun phase => ?_) ((Ground.inStep_withItem _).2 inStep)
    simp only [Item.sent_dated, Item.sent_failed]
  cases stepped with
  | failed date live why => exact refused driven
  | rejected date _ _ why => exact refused driven
  | confirmed date waits _ =>
    rw [waits.submission] at submits
    cases submits
  | @sent _ nonce date submits' offered same =>
    rw [submits] at submits'
    cases submits'
    have waits := @Item.waits_of_sent item s g profile nonce date submits
    generalize sent : g.ledger.nextTx profile.admin nonce = tx at driven waits
    subst same
    obtain ⟨waits, landed⟩ := waits
    obtain ⟨_, _, _, _, stepped, driven, rfl⟩ := driven.first waits.live
    cases stepped with
    | rejected _ submits | sent _ submits =>
      rw [waits.submission] at submits
      cases submits
    | failed date' _ _ =>
      obtain ⟨rfl, rfl, rfl⟩ := driven.at_rest (Status.isTerminal_onFailure _ _)
      refine .stopped tx.hash ?_ ?_ landed ?_
      · simp only [Item.failed, Item.advanced, Item.dated, Item.kind_record, Item.status_record]
      · simp only [Item.sent_dated, Item.sent_failed, Item.sent_advanced, Item.sent_record, if_true]
      · rw [Ground.inStep_withItem, Ground.inStep_withItem, Ground.recorded_withItem,
          Ground.recorded_withItem, Ground.outOfStep_withItem, Ground.outOfStep_withItem]
        cases effective : g.ledger.effective s with
        | true => exact .inr ⟨rfl, Ground.accepting_cases inStep effective⟩
        | false => exact .inl ⟨rfl, Ground.inStep_accepting inStep effective⟩
    | confirmed date' waits' landed' =>
      cases waits.unique waits'
      rw [landed] at landed'
      refine .lands ?_ ?_ ?_ ?_ driven
      · simp only [origin_dated, origin_advanced, Item.origin_record]
      · simp only [Item.advanced, Item.dated, Item.kind_record, Item.status_record]
      · exact Ground.inStep_confirmed room landed' sent.symm _ _
      · simp only [Ground.ledger_withItem, Ground.ledger_noting, Ground.ledger_accepting, Ledger.send]

/-- Whether the work on an item leaves a nonce behind, and what that means for the account. -/
def Leaves (profile : Profile) (g' : Ground) (final : Item) : Prop :=
  g'.Recorded profile.admin ∧ final.Unconfirmed g'.ledger

/-- Where nothing is left behind the account is in step, and where something is it is not. -/
def Settled (profile : Profile) (g' : Ground) (final : Item) : Prop :=
  (¬ Leaves profile g' final ∧ g'.InStep profile.admin) ∨
    (Leaves profile g' final ∧ g'.OutOfStep profile.admin)

theorem Strayed.settled {phase : Phase} (strayed : Strayed profile faults g item s g' final)
    (phaseOf : s.phase = phase)
    (unconfirmed : Status.onFailure item.kind (Status.next item.kind item.status) =
      Status.unconfirmed phase)
    (early : ∀ other hash, Status.onFailure item.kind item.status = Status.unconfirmed other →
      (item.sent other).hash ≠ some hash)
    (later : ∀ {g₂ item₂ later}, item₂.origin = item.origin →
      item₂.status = Status.next item.kind (Status.next item.kind item.status) →
      g₂.InStep profile.admin → g₂.ledger = g.ledger.send profile.admin s →
      Driven profile faults g₂ item₂ later g' final → Settled profile g' final) :
    Settled profile g' final := by
  cases strayed with
  | refused status sent inStep =>
    refine .inl ⟨?_, inStep⟩
    rintro ⟨_, other, hash, same, recorded, _⟩
    rw [status] at same
    rw [sent] at recorded
    exact early other hash same recorded
  | stopped hash status recorded landed outcome =>
    subst phaseOf
    have only : ∀ other, final.status = Status.unconfirmed other → other = s.phase := by
      intro other same
      rw [status, unconfirmed] at same
      generalize s.phase = phase at same
      cases other <;> cases phase <;> first | rfl | cases same
    rcases outcome with ⟨dropped, inStep⟩ | ⟨taken, ⟨absent, inStep⟩ | ⟨present, outOfStep⟩⟩
    · refine .inl ⟨?_, inStep⟩
      rintro ⟨_, other, hash', same, recorded', landed'⟩
      cases only other same
      rw [recorded] at recorded'
      cases recorded'
      rw [landed, dropped] at landed'
      cases landed'
    · exact .inl ⟨fun left => absent left.1, inStep⟩
    · refine .inr ⟨⟨present, s.phase, hash, ?_, recorded, landed.trans taken⟩, outOfStep⟩
      rw [status, unconfirmed]
  | lands origin status inStep ledger driven => exact later origin status inStep ledger driven

theorem settled_of_completed {later : List Receipt} {g₂ : Ground} {item₂ : Item}
    (completed : item₂.status = .completed) (inStep : g₂.InStep profile.admin)
    (driven : Driven profile faults g₂ item₂ later g' final) : Settled profile g' final := by
  obtain ⟨rfl, rfl, rfl⟩ := driven.at_rest (by rw [completed]; rfl)
  refine .inl ⟨?_, inStep⟩
  rintro ⟨_, phase, _, same, _⟩
  rw [completed] at same
  cases phase <;> cases same

/-- The second half of a registration, with any errors of the gateway. -/
theorem Driven.settled_reveal (driven : Driven profile faults g item receipts g' final)
    (inStep : g.InStep profile.admin) (room : (g.ledger.minedNonce profile.admin).toNat + 1 < 2 ^ 64)
    (kind : item.kind = .register) (status : item.status = .commitDone) {account : Address}
    (owned : Processor.owner item = .ok account) : Settled profile g' final := by
  have submits : item.submission = some (.register (item.registration account)) := by
    unfold Item.submission
    rw [kind, status, owned]
    rfl
  refine (driven.strays inStep room submits).settled rfl ?_ ?_ ?_
  · rw [kind, status]
    rfl
  · rw [kind, status]
    intro phase hash same
    cases phase <;> cases same
  · intro g₂ item₂ later _ status₂ inStep₂ _ driven
    rw [kind, status] at status₂
    exact settled_of_completed status₂ inStep₂ driven

/-- Whatever errors of the gateway an item meets, the account is out of step afterwards exactly if a
transaction of the item took effect without being confirmed, and the account has a nonce on record. -/
theorem Driven.settled (driven : Driven profile faults g item receipts g' final)
    (inStep : g.InStep profile.admin) (room : (g.ledger.minedNonce profile.admin).toNat + 2 < 2 ^ 64)
    (fresh : item.Fresh) : Settled profile g' final := by
  obtain ⟨initial, blank⟩ := fresh
  have early : ∀ other hash, Status.onFailure item.kind item.status = Status.unconfirmed other →
      (item.sent other).hash ≠ some hash := by
    intro other hash _ recorded
    rw [blank] at recorded
    cases recorded
  cases kind : item.kind with
  | renew =>
    have submits : item.submission = some (.renew item.fullName item.renewDuration) := by
      unfold Item.submission
      rw [kind, initial]
    refine (driven.strays inStep (by omega) submits).settled rfl ?_ early ?_
    · rw [kind, initial]
      rfl
    · intro g₂ item₂ later _ status₂ inStep₂ _ driven
      rw [kind, initial] at status₂
      exact settled_of_completed status₂ inStep₂ driven
  | register =>
    cases owned : Processor.owner item with
    | error error =>
      have quiet : item.submission = none := by
        unfold Item.submission
        rw [kind, initial, owned]
        rfl
      have live : item.status.isTerminal = false := by rw [initial]; rfl
      obtain ⟨rfl, rfl, date, rfl⟩ := driven.idles live quiet (awaited_of_initial initial)
      refine .inl ⟨?_, (Ground.inStep_withItem _).2 inStep⟩
      rintro ⟨_, phase, hash, _, recorded, _⟩
      rw [Item.sent_dated, Item.sent_failed, blank] at recorded
      cases recorded
    | ok account =>
      have submits : item.submission = some (.commit (item.registration account).commitment) := by
        unfold Item.submission
        rw [kind, initial, owned]
        rfl
      refine (driven.strays inStep (by omega) submits).settled rfl ?_ early ?_
      · rw [kind, initial]
        rfl
      · intro g₂ item₂ later origin status₂ inStep₂ ledger driven
        rw [kind, initial] at status₂
        have room₂ : (g₂.ledger.minedNonce profile.admin).toNat + 1 < 2 ^ 64 := by
          have grows := minedNonce_send_le g.ledger profile.admin
            (.commit (item.registration account).commitment)
          rw [ledger]
          omega
        exact driven.settled_reveal inStep₂ room₂ ((Item.kind_eq_of_origin origin).trans kind)
          status₂ ((owner_eq_of_origin origin).trans owned)

/-- Only requests to the gateway may fail. -/
def Faults.ofGateway : Faults := ⟨False, True, False⟩

/-- The work on an index has left a nonce behind: its item was not begun before and failed although
its transaction took effect, and the account has a nonce on record. -/
def LeftBehind (account : Address) (before after : Ground) (index : Int64) : Prop :=
  ∃ item final, Items.Holds before.store item ∧ item.index = index ∧ item.status = .initial ∧
    Items.Holds after.store final ∧ final.index = index ∧
    after.Recorded account ∧ final.Unconfirmed after.ledger

theorem leftBehind_iff (driven : Driven profile faults g item receipts g' final)
    (held : Items.Holds g.store item) (initial : item.status = .initial) :
    LeftBehind profile.admin g g' item.index ↔ Leaves profile g' final := by
  have there := (driven.frame held).held
  have index : final.index = item.index := Item.index_eq_of_origin driven.origin
  constructor
  · rintro ⟨_, final', _, _, _, there', index', recorded, unconfirmed⟩
    cases Items.holds_inj there there' (index.trans index'.symm)
    exact ⟨recorded, unconfirmed⟩
  · rintro ⟨recorded, unconfirmed⟩
    exact ⟨item, final, held, rfl, initial, there, index, recorded, unconfirmed⟩

/-- The work on one index while the gateway fails as it likes. -/
theorem struck_settled {backend : Backend} (own : backend.profile = profile)
    (within : backend.Within .ofGateway) (quiet : Quiet backend.ground)
    (inStep : backend.ground.InStep profile.admin)
    (room : (backend.ground.ledger.minedNonce profile.admin).toNat + 2 < 2 ^ 64) (index : Int64) :
    let struck := (backend.perform (Processor.processIndex false index).run).backend
    let left := LeftBehind profile.admin backend.ground struck.ground index
    struck.Within .ofGateway ∧ struck.profile = profile ∧ Quiet struck.ground ∧
      (struck.ground.ledger.minedNonce profile.admin).toNat ≤
        (backend.ground.ledger.minedNonce profile.admin).toNat + 2 ∧
      ((¬ left ∧ struck.ground.InStep profile.admin) ∨
        (left ∧ struck.ground.OutOfStep profile.admin)) := by
  subst own
  intro struck left
  cases present : backend.ground.store.get? (Items.key index) with
  | none =>
    obtain ⟨kept, same, _, _, ground⟩ := Backend.processIndex_missing within id present
    have unchanged : struck.ground = backend.ground := ground
    refine ⟨kept, same, unchanged ▸ quiet, by rw [unchanged]; omega, .inl ⟨?_, unchanged ▸ inStep⟩⟩
    rintro ⟨item, _, held, rfl, _⟩
    rw [held.2] at present
    cases present
  | some record =>
    obtain ⟨item, held, same⟩ := quiet.tidy _ _ present (Items.keyStart_isPrefixOf_key index)
    cases Items.key_inj same
    obtain ⟨kept, same, final, _, driven⟩ := Backend.processIndex_driven within id id held
    refine ⟨kept, same, quiet.drive held driven,
      driven.grows.trans (Nat.add_le_add_left item.toSend_le _), ?_⟩
    rcases quiet.items item held with terminal | fresh
    · obtain ⟨_, unchanged, _⟩ := driven.at_rest terminal
      have unchanged : struck.ground = backend.ground := unchanged
      refine .inl ⟨?_, unchanged ▸ inStep⟩
      rintro ⟨first, _, held', index, initial, _⟩
      cases Items.holds_inj held held' index.symm
      rw [initial] at terminal
      cases terminal
    · have settled := driven.settled inStep room fresh
      unfold Settled at settled
      rw [← leftBehind_iff driven held fresh.1] at settled
      exact settled

/-- The backend under other fault rules for the gateway. -/
def Backend.under (backend : Backend) (rules : List Gateway.FaultRule) : Backend :=
  { backend with gatewayRules := rules }

theorem Backend.Within.under {backend : Backend} {other : Faults} {rules : List Gateway.FaultRule}
    (within : backend.Within faults) (steady : ¬ faults.store)
    (allowed : ∀ rule ∈ rules, other.Allows rule.effect) : (backend.under rules).Within other where
  native := within.native
  store some := absurd (within.store some) steady
  gateway := allowed

/-- The turn of a registration whose owner is known and whose name is free. -/
theorem turn_registers {backend : Backend} {account : Address} (own : backend.profile = profile)
    (within : backend.Within .none) (free : profile.nonceOverride = none) (quiet : Quiet backend.ground)
    (held : Items.Holds backend.ground.store item) (kind : item.kind = .register)
    (live : item.status.isTerminal = false) (owned : Processor.owner item = .ok account)
    (unclaimed : backend.ground.ledger.name? item.fullName = none) :
    let turn := backend.perform (Processor.processIndex false item.index).run
    (backend.ground.InStep profile.admin →
      (backend.ground.ledger.minedNonce profile.admin).toNat + 2 < 2 ^ 64 →
      turn.value = some (.ok .completed)) ∧
    (backend.ground.OutOfStep profile.admin →
      turn.value = some (.ok .commitError) ∧ ∃ detail, turn.receipts = [.error (.rejected detail)]) := by
  subst own
  obtain ⟨_, _, final, value, driven⟩ := Backend.processIndex_driven within id id held
  have initial : item.status = .initial := by
    rcases quiet.items item held with terminal | fresh
    · rw [live] at terminal
      cases terminal
    · exact fresh.1
  intro turn
  constructor
  · intro inStep room
    obtain ⟨status, _⟩ := driven.settles id free inStep room initial
    unfold Item.verdict at status
    rw [kind, owned, unclaimed] at status
    exact value.trans (by rw [status]; rfl)
  · intro outOfStep
    have submits : item.submission = some (.commit (item.registration account).commitment) := by
      unfold Item.submission
      rw [kind, initial, owned]
      rfl
    obtain ⟨heard, status, _⟩ := driven.rejected id free outOfStep submits
    rw [kind, initial] at status
    exact ⟨value.trans (by rw [status]; rfl), heard⟩

/-- The errors of the gateway that strike the work on one index reach the items after it exactly if a
nonce was left behind. If none was, nothing that is sent later is rejected, and every registration
with an owner and a free name is completed. If one was, all that is sent later is rejected, and every
such registration ends in an error without being begun. -/
theorem later_completed_iff {backend : Backend} (before later : List QueueCall) (index : Int64)
    (rules : List Gateway.FaultRule) (within : backend.Within .none)
    (free : backend.profile.nonceOverride = none) (quiet : Quiet backend.ground)
    (inStep : backend.ground.InStep backend.profile.admin)
    (room : (backend.ground.ledger.minedNonce backend.profile.admin).toNat +
      2 * (before.length + later.length + 2) < 2 ^ 64)
    (fits : ∀ call ∈ before ++ later, call.Fits)
    (errors : ∀ rule ∈ rules, Faults.ofGateway.Allows rule.effect) :
    let first := (backend.perform (QueueCall.all before)).backend
    let struck := ((first.under rules).perform (Processor.processIndex false index).run).backend
    let performed := (struck.under []).perform (QueueCall.all later)
    let left := LeftBehind backend.profile.admin first.ground struck.ground index
    (¬ left → ∀ receipt ∈ performed.receipts, Receipt.isRejected receipt = false) ∧
      (left → ∀ receipt ∈ performed.receipts, Receipt.isRejected receipt = true) ∧
      ∀ item account, Items.Holds performed.backend.ground.store item → item.kind = .register →
        item.status.isTerminal = false → Processor.owner item = .ok account →
        performed.backend.ground.ledger.name? item.fullName = none →
        let turn := performed.backend.perform (Processor.processIndex false item.index).run
        (turn.value = some (.ok .completed) ↔ ¬ left) ∧
          (left → turn.value = some (.ok .commitError) ∧
            ∃ detail, turn.receipts = [.error (.rejected detail)]) := by
  intro first struck performed left
  obtain ⟨kept, own, _, quiet₁, stays, _⟩ := calls_performed before within free quiet
    fun call there => fits call (List.mem_append_left _ there)
  obtain ⟨inStep₁, few₁, _⟩ := stays inStep (by omega)
  have room₁ : (first.ground.ledger.minedNonce backend.profile.admin).toNat + 2 < 2 ^ 64 :=
    Nat.lt_of_le_of_lt (Nat.add_le_add_right few₁ 2) (by omega)
  obtain ⟨kept₂, own₂, quiet₂, few₂, settled⟩ :=
    @struck_settled backend.profile (first.under rules) own (kept.under id errors) quiet₁ inStep₁
      room₁ index
  have few : (struck.ground.ledger.minedNonce backend.profile.admin).toNat ≤
      (backend.ground.ledger.minedNonce backend.profile.admin).toNat + 2 * before.length + 2 :=
    few₂.trans (Nat.add_le_add_right few₁ 2)
  have healed : (struck.under []).Within .none := Backend.Within.under kept₂ id nofun
  have own₂ : (struck.under []).profile = backend.profile := own₂
  obtain ⟨kept₃, own₃, _, quiet₃, stays, fails⟩ := calls_performed later healed
    (by rw [own₂]; exact free) quiet₂ fun call there => fits call (List.mem_append_right _ there)
  rw [own₂] at own₃ stays fails
  rcases settled with ⟨none, inStep₂⟩ | ⟨behind, outOfStep₂⟩
  · obtain ⟨inStep₃, few₃, taken⟩ := stays inStep₂ (Nat.lt_of_le_of_lt (Nat.add_le_add_right few _)
      (by omega))
    have room₃ : (performed.backend.ground.ledger.minedNonce backend.profile.admin).toNat + 2 <
        2 ^ 64 := by
      have few₃ : (performed.backend.ground.ledger.minedNonce backend.profile.admin).toNat ≤
        (struck.ground.ledger.minedNonce backend.profile.admin).toNat + 2 * later.length := few₃
      omega
    refine ⟨fun _ => taken, fun behind => absurd behind none, ?_⟩
    intro item account held kind live owned unclaimed
    have registers := turn_registers own₃ kept₃ free quiet₃ held kind live owned unclaimed
    exact ⟨⟨fun _ => none, fun _ => registers.1 inStep₃ room₃⟩, fun behind => absurd behind none⟩
  · obtain ⟨outOfStep₃, refused⟩ := fails outOfStep₂
    refine ⟨fun none => absurd behind none, fun _ => refused, ?_⟩
    intro item account held kind live owned unclaimed
    have registers := turn_registers own₃ kept₃ free quiet₃ held kind live owned unclaimed
    have refused := registers.2 outOfStep₃
    refine ⟨⟨fun completed => ?_, fun none => absurd behind none⟩, fun _ => refused⟩
    rw [refused.1] at completed
    cases completed

namespace Stranded

def request (fullName : String) : ItemRequest :=
  .register ⟨fullName, "x", "0x10d5B0e279E5E4c1d1Df5F57DFB7E84813920a51", ""⟩

/-- An empty queue and a ledger without transactions, with the account's first nonce on record. -/
def backend : Backend :=
  { Backend.fresh .sample ⟨7, 1⟩ 0 with
    books := ⟨.fresh 0, ⟨Store.empty.withNonce ⟨Profile.sample.admin, 0⟩, []⟩⟩ }

def before : List QueueCall := [.add (request "a.any") (.fill 1), .add (request "b.any") (.fill 2)]

/-- The wait for the first transaction is broken off. -/
def rules : List Gateway.FaultRule := [⟨.awaitMined, 0, some 1, .fail (.waitAborted "")⟩]

/-- The second registration, whose name is free. -/
def second : Item := Item.ofRequest 1 (.fill 2) 8 (request "b.any")

theorem within : backend.Within .none := ⟨rfl, fun some => absurd rfl some, fun _ there => nomatch there⟩

theorem errors : ∀ rule ∈ rules, Faults.ofGateway.Allows rule.effect := by
  intro rule there
  rw [List.mem_singleton.1 there]
  trivial

theorem second_owned : ∃ account, Processor.owner second = .ok account :=
  ⟨(Processor.owner second).toOption.getD default, by decide⟩

set_option maxRecDepth 8000 in
theorem second_refused :
    let first := (backend.perform (QueueCall.all before)).backend
    let struck := ((first.under rules).perform (Processor.processIndex false 0).run).backend
    let healed := ((struck.under []).perform (QueueCall.all [])).backend
    Items.Holds healed.ground.store second ∧
      healed.ground.ledger.name? second.fullName = none ∧
      (healed.perform (Processor.processIndex false second.index).run).value =
        some (.ok .commitError) := by
  decide +kernel +zetaReduce

end Stranded

theorem stranded_behind :
    let first := (Stranded.backend.perform (QueueCall.all Stranded.before)).backend
    let struck :=
      ((first.under Stranded.rules).perform (Processor.processIndex false 0).run).backend
    let healed := ((struck.under []).perform (QueueCall.all [])).backend
    (healed.perform (Processor.processIndex false Stranded.second.index).run).value =
        some (.ok .commitError) ∧
      LeftBehind Stranded.backend.profile.admin first.ground struck.ground 0 := by
  obtain ⟨held, unclaimed, failed⟩ := Stranded.second_refused
  obtain ⟨account, owned⟩ := Stranded.second_owned
  have later := (@later_completed_iff Stranded.backend Stranded.before [] 0 Stranded.rules
    Stranded.within rfl (quiet_of_empty (by decide)) (by decide) (by decide)
    (by decide) Stranded.errors).2.2 Stranded.second account held rfl rfl owned unclaimed
  refine ⟨failed, Classical.not_not.1 fun none => ?_⟩
  have value := later.1.2 none
  exact absurd (failed.symm.trans value) (by decide)

/-- Errors that strike one item may end an item after it, although nothing fails any more. -/
theorem not_later_completed :
    ¬ ∀ (backend : Backend) (before later : List QueueCall) (index : Int64)
        (rules : List Gateway.FaultRule) (item : Item) (account : Address),
      backend.Within .none → backend.profile.nonceOverride = none → Quiet backend.ground →
      backend.ground.InStep backend.profile.admin →
      (∀ call ∈ before ++ later, call.Fits) →
      (∀ rule ∈ rules, Faults.ofGateway.Allows rule.effect) →
      let first := (backend.perform (QueueCall.all before)).backend
      let struck := ((first.under rules).perform (Processor.processIndex false index).run).backend
      let healed := ((struck.under []).perform (QueueCall.all later)).backend
      Items.Holds healed.ground.store item → item.kind = .register →
      item.status.isTerminal = false → Processor.owner item = .ok account →
      healed.ground.ledger.name? item.fullName = none →
      (healed.perform (Processor.processIndex false item.index).run).value =
        some (.ok .completed) := by
  intro always
  obtain ⟨held, unclaimed, failed⟩ := Stranded.second_refused
  obtain ⟨account, owned⟩ := Stranded.second_owned
  have completed := always Stranded.backend Stranded.before [] 0 Stranded.rules Stranded.second account
    Stranded.within rfl (quiet_of_empty (by decide)) (by decide) (by decide)
    Stranded.errors held rfl rfl owned unclaimed
  exact absurd (failed.symm.trans completed) (by decide)

end Registrar
