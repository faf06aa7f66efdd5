import Registrar.Proofs.Restart.SweptItems

/-!
Restarts. A resume scan visits the items that were not begun before those that wait, so a nonce that
was used up but not put on record yet is offered to the wrong item. `Resumable` is what a store and a
ledger must be like for that to come to nothing, and `clear_iff_resumable` says, part by part of a scan
(`Parts`), that it is neither too much nor too little.
-/

namespace Registrar

open Item (Phase Status)
open Ledger (Submission Profile)

variable {profile : Profile} {faults : Faults} {g g' : Ground} {item final other : Item}
  {items : List Item} {receipts : List Receipt} {s : Submission} {account : Address}
  {tx : TxHandle} {known : List TxHash} {base : Nat}

theorem inStep_or_outOfStep (offered : ∃ nonce, g.nextNonce account = .ok nonce) :
    g.InStep account ∨ g.OutOfStep account := by
  obtain ⟨nonce, offered⟩ := offered
  by_cases same : nonce = g.ledger.minedNonce account
  · rw [same] at offered
    exact .inl offered
  · exact .inr ⟨nonce, offered, same⟩

/-- Out of step, nothing is submitted without being rejected. -/
theorem Driven.inStep_of_clear (driven : Driven profile faults g item receipts g' final)
    (sure : ¬ faults.gateway) (free : profile.nonceOverride = none)
    (offered : ∃ nonce, g.nextNonce profile.admin = .ok nonce) (submits : item.submission = some s)
    (clear : Clear receipts) : g.InStep profile.admin := by
  rcases inStep_or_outOfStep offered with inStep | outOfStep
  · exact inStep
  · obtain ⟨⟨detail, rfl⟩, _⟩ := driven.rejected sure free outOfStep submits
    cases clear _ (List.mem_singleton_self _)

/-- The transactions left are few enough for the nonces left. -/
def Room (account : Address) (ledger : Ledger) (receipts : List Receipt) : Prop :=
  (ledger.minedNonce account).toNat + (hashes receipts).length + 2 < 2 ^ 64

theorem Room.split {asks : Submission → Prop} {ledger middle : Ledger} {first later : List Receipt}
    (room : Room account ledger (first ++ later))
    (accepts : Accepts account asks ledger (hashes first) middle) :
    Room account ledger first ∧ Room account middle later ∧
      (ledger.minedNonce account).toNat ≤ (middle.minedNonce account).toNat := by
  unfold Room at *
  rw [hashes_append, List.length_append] at room
  have grows := accepts.nonce (by omega)
  omega

namespace Swept

/-- In step, items that were not begun leave the account in step. The next nonce stays the same exactly
if all of them are idle. -/
theorem begins (swept : Swept profile faults g items receipts g') (sure : ¬ faults.gateway)
    (free : profile.nonceOverride = none) (inStep : g.InStep profile.admin)
    (room : Room profile.admin g.ledger receipts) (initial : ∀ item ∈ items, item.status = .initial) :
    g'.InStep profile.admin ∧ Clear receipts ∧
      ((∀ item ∈ items, item.Idle g.ledger) ↔
        g'.ledger.minedNonce profile.admin = g.ledger.minedNonce profile.admin) := by
  induction swept with
  | nil =>
    refine ⟨inStep, nofun, fun _ => rfl, fun _ item there => ?_⟩
    cases there
  | @cons g item first middle _ rest later _ held driven swept ih =>
    obtain ⟨room₁, room₂, grows⟩ := room.split driven.accepts
    obtain ⟨inStep₁, clear₁, idle, busy⟩ :=
      driven.begins sure free inStep room₁ (initial item List.mem_cons_self)
    obtain ⟨inStep₂, clear₂, same⟩ :=
      ih inStep₁ room₂ fun other there => initial other (List.mem_cons_of_mem _ there)
    refine ⟨inStep₂, clear_append.2 ⟨clear₁, clear₂⟩, ?_⟩
    rw [List.forall_mem_cons]
    constructor
    · rintro ⟨here, later⟩
      obtain ⟨kept, alike⟩ := idle here
      refine (same.1 fun other there s submits => ?_).trans kept
      rw [alike]
      exact later other there s submits
    · intro kept
      -- The next nonce never goes back, so none of the items has moved it.
      have least := (swept.accepts.nonce (by unfold Room at room₂; omega)).1
      have here : item.Idle g.ledger := by
        apply Classical.not_not.1
        intro moved
        have more := busy moved
        rw [kept] at least
        omega
      obtain ⟨kept₁, alike⟩ := idle here
      refine ⟨here, fun other there s submits => ?_⟩
      rw [← alike]
      exact same.2 (kept.trans kept₁.symm) other there s submits

/-- Items that were not begun and submit nothing change nothing but themselves. -/
theorem idles (swept : Swept profile faults g items receipts g')
    (initial : ∀ item ∈ items, item.status = .initial)
    (quiet : ∀ item ∈ items, item.submission = none) :
    receipts = [] ∧ g'.ledger = g.ledger ∧ g'.nextNonce account = g.nextNonce account := by
  induction swept with
  | nil => exact ⟨rfl, rfl, rfl⟩
  | @cons g item _ _ final _ _ _ held driven swept ih =>
    have here := initial item List.mem_cons_self
    have live : item.status.isTerminal = false := by rw [here]; rfl
    obtain ⟨rfl, rfl, _⟩ :=
      driven.idles live (quiet item List.mem_cons_self) (awaited_of_initial here)
    obtain ⟨rfl, ledger, nonce⟩ := ih (fun other there => initial other (List.mem_cons_of_mem _ there))
      fun other there => quiet other (List.mem_cons_of_mem _ there)
    exact ⟨rfl, ledger, nonce.trans (Ground.nextNonce_withItem _)⟩

/-- Out of step, the first item that submits anything is rejected. -/
theorem quiet_of_clear (swept : Swept profile faults g items receipts g') (sure : ¬ faults.gateway)
    (free : profile.nonceOverride = none) (outOfStep : g.OutOfStep profile.admin)
    (initial : ∀ item ∈ items, item.status = .initial) (clear : Clear receipts) :
    ∀ item ∈ items, item.submission = none := by
  induction swept with
  | nil =>
    intro item there
    cases there
  | @cons g item _ _ final rest _ _ held driven swept ih =>
    obtain ⟨clear₁, clear₂⟩ := clear_append.1 clear
    have here := initial item List.mem_cons_self
    have live : item.status.isTerminal = false := by rw [here]; rfl
    cases submits : item.submission with
    | some s =>
      obtain ⟨⟨detail, rfl⟩, _⟩ := driven.rejected sure free outOfStep submits
      cases clear₁ _ (List.mem_singleton_self _)
    | none =>
      obtain ⟨rfl, rfl, _⟩ := driven.idles live submits (awaited_of_initial here)
      rw [List.forall_mem_cons]
      exact ⟨submits, ih ((Ground.outOfStep_withItem _).2 outOfStep)
        (fun other there => initial other (List.mem_cons_of_mem _ there)) clear₂⟩

/-- In step, names that were committed to are revealed one after the other. -/
theorem reveals (swept : Swept profile faults g items receipts g') (sure : ¬ faults.gateway)
    (free : profile.nonceOverride = none) (inStep : g.InStep profile.admin)
    (room : Room profile.admin g.ledger receipts)
    (done : ∀ item ∈ items, item.status = .commitDone ∧ item.kind = .register ∧
      ∃ owner, Processor.owner item = .ok owner) :
    g'.InStep profile.admin ∧ Clear receipts := by
  induction swept with
  | nil => exact ⟨inStep, nofun⟩
  | @cons g item first middle _ rest later _ held driven swept ih =>
    obtain ⟨room₁, room₂, _⟩ := room.split driven.accepts
    obtain ⟨status, kind, owner, owned⟩ := done item List.mem_cons_self
    obtain ⟨⟨tx, rfl⟩, _, inStep₁, _⟩ :=
      driven.reveals sure free inStep (by unfold Room at room₁; omega) kind status owned
    obtain ⟨inStep₂, clear₂⟩ :=
      ih inStep₁ room₂ fun other there => done other (List.mem_cons_of_mem _ there)
    refine ⟨inStep₂, clear_append.2 ⟨fun receipt there => ?_, clear₂⟩⟩
    rw [List.mem_singleton.1 there]
    rfl

/-- Out of step, the first name to be revealed is rejected. -/
theorem none_of_clear (swept : Swept profile faults g items receipts g') (sure : ¬ faults.gateway)
    (free : profile.nonceOverride = none) (outOfStep : g.OutOfStep profile.admin)
    (done : ∀ item ∈ items, item.status = .commitDone ∧ item.kind = .register ∧
      ∃ owner, Processor.owner item = .ok owner) (clear : Clear receipts) : items = [] := by
  cases swept with
  | nil => rfl
  | @cons _ item _ _ _ _ _ _ held driven _ =>
    obtain ⟨status, kind, owner, owned⟩ := done item List.mem_cons_self
    have submits : item.submission = some (.register (item.registration owner)) := by
      unfold Item.submission
      rw [kind, status, owned]
      rfl
    obtain ⟨⟨detail, rfl⟩, _⟩ := driven.rejected sure free outOfStep submits
    cases clear _ (List.mem_append_left _ (List.mem_singleton_self _))

/-- Items that wait for their last transactions send nothing. -/
theorem ends (swept : Swept profile faults g items receipts g')
    (last : ∀ item ∈ items, item.status = .registerSent ∨ item.status = .renewSent) :
    receipts = [] := by
  induction swept with
  | nil => rfl
  | @cons g item _ _ _ _ _ _ _ driven _ ih =>
    obtain ⟨rfl, _⟩ := driven.ends (last item List.mem_cons_self)
    exact ih fun other there => last other (List.mem_cons_of_mem _ there)

end Swept

/-- The item waits for its commitment, which took effect. -/
structure Item.Pending (item : Item) (account : Address) (ledger : Ledger) (tx : TxHandle) : Prop where
  status : item.status = .commitSent
  kind : item.kind = .register
  owned : ∃ owner, Processor.owner item = .ok owner
  sent : item.sent .commit = ⟨some tx.hash, some tx.nonce⟩
  there : ledger.tx? tx.hash = some ⟨tx, true⟩
  sender : tx.sender = account
  before : tx.nonce.toNat < (ledger.minedNonce account).toNat

/-- The item's commitment was the last of the account's transactions to take effect. -/
def Item.Last (item : Item) (account : Address) (ledger : Ledger) : Prop :=
  (item.sent .commit).nonce.map (· + 1) = some (ledger.minedNonce account)

instance (item : Item) (account : Address) (ledger : Ledger) : Decidable (item.Last account ledger) :=
  inferInstanceAs (Decidable ((item.sent .commit).nonce.map (· + 1) = some (ledger.minedNonce account)))

theorem Item.Pending.last_iff {ledger : Ledger} (pending : item.Pending account ledger tx) :
    item.Last account ledger ↔ tx.nonce.toNat + 1 = (ledger.minedNonce account).toNat := by
  have before := pending.before
  have small := (ledger.minedNonce account).toNat_lt
  unfold Item.Last
  rw [pending.sent, Option.map_some, Option.some_inj, ← UInt64.toNat_inj, UInt64.toNat_add,
    UInt64.toNat_one, Nat.mod_eq_of_lt (by omega)]

theorem Item.Pending.later {asks : Submission → Prop} {ledger ledger' : Ledger} {hashes : List TxHash}
    (pending : item.Pending account ledger tx) (accepts : Accepts account asks ledger hashes ledger')
    (fresh : tx.hash ∉ hashes)
    (grows : (ledger.minedNonce account).toNat ≤ (ledger'.minedNonce account).toNat) :
    item.Pending account ledger' tx where
  status := pending.status
  kind := pending.kind
  owned := pending.owned
  sent := pending.sent
  there := (accepts.tx? fresh).trans pending.there
  sender := pending.sender
  before := Nat.lt_of_lt_of_le pending.before grows

/-- An item that waits for its commitment is revealed if that was the last transaction to take effect,
and rejected otherwise. -/
theorem Driven.resumes (driven : Driven profile faults g item receipts g' final)
    (sure : ¬ faults.gateway) (free : profile.nonceOverride = none)
    (room : Room profile.admin g.ledger receipts) (pending : item.Pending profile.admin g.ledger tx)
    {owner : Address} (owned : Processor.owner item = .ok owner) :
    (item.Last profile.admin g.ledger →
      g'.InStep profile.admin ∧ Clear receipts ∧
        final.status =
          if g.ledger.canRegister (item.registration owner) then .completed else .error) ∧
      (Clear receipts → item.Last profile.admin g.ledger) := by
  have waits : item.Waits g tx := by
    refine ⟨.commit, tx.hash, _, ?_, by rw [pending.sent], pending.there, rfl⟩
    unfold Item.awaited
    rw [pending.kind, pending.status]
  have landed : g.ledger.landed tx.hash = true := by
    unfold Ledger.landed
    rw [pending.there]
    rfl
  obtain ⟨g₂, item₂, origin, status, ledger, noted, driven⟩ := driven.confirms sure waits landed
  have before := pending.before
  have small := (g.ledger.minedNonce profile.admin).toNat_lt
  have inStep_iff : g₂.InStep profile.admin ↔ item.Last profile.admin g.ledger := by
    rw [pending.sender, saturatingAdd_one (by omega)] at noted
    rw [pending.last_iff]
    unfold Ground.InStep
    rw [noted, ledger, Except.ok.injEq, ← UInt64.toNat_inj, UInt64.toNat_add, UInt64.toNat_one,
      Nat.mod_eq_of_lt (by omega)]
  have offered : ∃ nonce, g₂.nextNonce profile.admin = .ok nonce := by
    rw [pending.sender] at noted
    exact ⟨_, noted⟩
  rw [pending.kind, pending.status] at status
  have kind : item₂.kind = .register := (Item.kind_eq_of_origin origin).trans pending.kind
  have owned₂ : Processor.owner item₂ = .ok owner := (owner_eq_of_origin origin).trans owned
  rw [← inStep_iff]
  constructor
  · intro inStep
    obtain ⟨⟨tx', rfl⟩, _, inStep', status'⟩ := driven.reveals sure free inStep
      (by unfold Room at room; rw [ledger]; omega) kind status owned₂
    rw [registration_eq_of_origin origin, ledger] at status'
    refine ⟨inStep', fun receipt there => ?_, status'⟩
    rw [List.mem_singleton.1 there]
    rfl
  · intro clear
    have submits : item₂.submission = some (.register (item₂.registration owner)) := by
      unfold Item.submission
      rw [kind, status, owned₂]
      rfl
    exact driven.inStep_of_clear sure free offered submits clear

/-- Of several items that wait for their commitments, the second one is rejected at the latest. -/
theorem Swept.resumes (swept : Swept profile faults g items receipts g') (sure : ¬ faults.gateway)
    (free : profile.nonceOverride = none) (room : Room profile.admin g.ledger receipts)
    (pending : ∀ item ∈ items, ∃ tx, item.Pending profile.admin g.ledger tx ∧ tx.hash ∉ hashes receipts)
    (apart : items.Pairwise fun a b => (a.sent .commit).nonce ≠ (b.sent .commit).nonce) :
    (Clear receipts ↔ ∀ item ∈ items, item.Last profile.admin g.ledger) ∧
      (Clear receipts → items ≠ [] → g'.InStep profile.admin) := by
  cases swept with
  | nil =>
    refine ⟨⟨fun _ item there => ?_, fun _ => nofun⟩, fun _ none => absurd rfl none⟩
    cases there
  | @cons _ item first middle _ rest later _ held driven swept =>
    obtain ⟨room₁, room₂, grows⟩ := room.split driven.accepts
    obtain ⟨tx, waits, _⟩ := pending item List.mem_cons_self
    obtain ⟨owner, owned⟩ := waits.owned
    obtain ⟨lands, only⟩ := driven.resumes sure free room₁ waits owned
    obtain ⟨apart, apart'⟩ := List.pairwise_cons.1 apart
    cases swept with
    | nil =>
      rw [List.append_nil]
      exact ⟨⟨fun clear => List.forall_mem_singleton.2 (only clear),
        fun last => (lands (last item List.mem_cons_self)).2.1⟩, fun clear _ => (lands (only clear)).1⟩
    | @cons _ second first' _ _ _ later' _ held' driven' swept' =>
      obtain ⟨tx', waits', fresh'⟩ := pending second (List.mem_cons_of_mem _ List.mem_cons_self)
      have differ := apart second List.mem_cons_self
      rw [waits.sent, waits'.sent] at differ
      -- The second transaction came before the first, and the next nonce does not go back.
      have same : ∀ {a b : UInt64}, a.toNat + 1 = b.toNat + 1 → some a = some b := by
        intro a b equal
        exact congrArg some (UInt64.toNat_inj.1 (Nat.succ.inj equal))
      have refused : ¬ Clear (first ++ (first' ++ later')) := by
        intro clear
        obtain ⟨clear₁, clear₂⟩ := clear_append.1 clear
        obtain ⟨clear₂, _⟩ := clear_append.1 clear₂
        obtain ⟨room₂, _⟩ := room₂.split driven'.accepts
        have fresh : tx'.hash ∉ hashes first := by
          rw [hashes_append, List.mem_append, not_or] at fresh'
          exact fresh'.1
        have waits₂ := waits'.later driven.accepts fresh grows
        obtain ⟨owner', owned'⟩ := waits₂.owned
        have last := waits.last_iff.1 (only clear₁)
        have last' := waits₂.last_iff.1 ((driven'.resumes sure free room₂ waits₂ owned').2 clear₂)
        have before := waits'.before
        exact differ (same (by omega))
      refine ⟨⟨fun clear => absurd clear refused, fun last => ?_⟩, fun clear => absurd clear refused⟩
      have here := waits.last_iff.1 (last item List.mem_cons_self)
      have there := waits'.last_iff.1 (last second (List.mem_cons_of_mem _ List.mem_cons_self))
      exact absurd (same (here.trans there.symm)) differ

/-- What is left to be done fits the next nonce: an item that was not begun is offered the ledger's
own, an item that waits for its commitment is the last that was accepted and will stay so, and one that
is to be revealed is offered the ledger's own or the nonce after such a commitment. -/
structure Resumable (account : Address) (g : Ground) : Prop where
  begins : ∀ item ∈ Items.bucket g.store .initial, item.submission ≠ none → g.InStep account
  resumes : ∀ item ∈ Items.bucket g.store .commitSent,
    item.Last account g.ledger ∧ ∀ other ∈ Items.bucket g.store .initial, other.Idle g.ledger
  reveals : Items.bucket g.store .commitDone ≠ [] →
    g.InStep account ∨ Items.bucket g.store .commitSent ≠ []

namespace Followed

/-- An item that waits for its commitment, as the scan finds it. -/
theorem pending (followed : Followed account base known g) (held : Items.Holds g.store item)
    (status : item.status = .commitSent) :
    ∃ tx, item.Pending account g.ledger tx ∧ tx.hash ∈ known := by
  cases followed.traced item held with
  | commitSent tx status committed sent there sender before =>
    refine ⟨tx, ⟨status, committed.kind, committed.owned, sent, there, sender, before⟩, ?_⟩
    exact followed.recorded item .commit tx.hash held (by rw [sent])
  | initial status' | commitDone status' | registerSent _ _ status' | renewSent status' =>
    rw [status] at status'
    cases status'
  | rest terminal =>
    rw [status] at terminal
    cases terminal

/-- An item whose name was committed to, as the scan finds it. -/
theorem revealing (followed : Followed account base known g) (held : Items.Holds g.store item)
    (status : item.status = .commitDone) : item.kind = .register ∧
      ∃ owner, Processor.owner item = .ok owner := by
  have committed := (followed.traced item held).committed (.inr status)
  exact ⟨committed.kind, committed.owned⟩

theorem fresh {hash : TxHash} (sane : Sane base (known ++ hashes receipts)) (there : hash ∈ known) :
    hash ∉ hashes receipts :=
  fun again => (List.nodup_append.1 sane.1).2.2 _ there _ again rfl

/-- No two items wait for commitments with the same nonce. -/
theorem apart_bucket (followed : Followed account base known g) :
    (Items.bucket g.store .commitSent).Pairwise fun a b =>
      (a.sent .commit).nonce ≠ (b.sent .commit).nonce := by
  refine (Items.sorted_bucket followed.tidy .commitSent).imp_of_mem ?_
  intro a b thereA thereB before same
  obtain ⟨heldA, statusA⟩ := (Items.mem_bucket followed.tidy).1 thereA
  obtain ⟨heldB, statusB⟩ := (Items.mem_bucket followed.tidy).1 thereB
  rw [followed.apart a b heldA heldB statusA statusB same] at before
  exact List.lt_irrefl _ before

end Followed

/-- A scan in its parts, up to the items that wait for their last transactions: it visits the items that
were not begun, then those that wait for their commitments, then those whose names are to be revealed. -/
structure Parts (profile : Profile) (faults : Faults) (g g₁ g₂ g₃ : Ground) (r₁ r₂ r₃ : List Receipt) :
    Prop where
  begun : Swept profile faults g (Items.bucket g.store .initial) r₁ g₁
  resumed : Swept profile faults g₁ (Items.bucket g.store .commitSent) r₂ g₂
  revealed : Swept profile faults g₂ (Items.bucket g.store .commitDone) r₃ g₃
  room₁ : Room profile.admin g.ledger r₁
  room₂ : Room profile.admin g₁.ledger r₂
  room₃ : Room profile.admin g₂.ledger r₃
  offered : ∃ nonce, g.nextNonce profile.admin = .ok nonce
  initial : ∀ item ∈ Items.bucket g.store .initial, item.status = .initial
  waiting : ∀ item ∈ Items.bucket g.store .commitSent,
    ∃ tx, item.Pending profile.admin g.ledger tx ∧ item.Pending profile.admin g₁.ledger tx ∧
      tx.hash ∉ hashes r₂
  apart : (Items.bucket g.store .commitSent).Pairwise fun a b =>
    (a.sent .commit).nonce ≠ (b.sent .commit).nonce
  done : ∀ item ∈ Items.bucket g.store .commitDone, item.status = .commitDone ∧ item.kind = .register ∧
    ∃ owner, Processor.owner item = .ok owner

/-- A scan has these parts, and what comes after them sends nothing. -/
theorem Swept.parts
    (swept : Swept profile faults g (Registrar.pending g.store Status.resumeBuckets) receipts g')
    (followed : Followed profile.admin base known g) (sane : Sane base (known ++ hashes receipts)) :
    ∃ g₁ g₂ g₃ r₁ r₂ r₃, Parts profile faults g g₁ g₂ g₃ r₁ r₂ r₃ ∧ receipts = r₁ ++ (r₂ ++ r₃) := by
  have order : Registrar.pending g.store Status.resumeBuckets =
      Items.bucket g.store .initial ++ (Items.bucket g.store .commitSent ++
        (Items.bucket g.store .commitDone ++
          (Items.bucket g.store .registerSent ++ Items.bucket g.store .renewSent))) := by
    simp only [Registrar.pending, Status.resumeBuckets, List.flatMap_cons, List.flatMap_nil,
      List.append_nil]
  rw [order] at swept
  obtain ⟨g₁, r₁, _, swept₁, after₁, rfl⟩ := swept.split
  obtain ⟨g₂, r₂, _, swept₂, after₂, rfl⟩ := after₁.split
  obtain ⟨g₃, r₃, r₄, swept₃, swept₄, rfl⟩ := after₂.split
  have within : ∀ {status item}, item ∈ Items.bucket g.store status →
      Items.Holds g.store item ∧ item.status = status := (Items.mem_bucket followed.tidy).1
  have last : r₄ = [] := by
    apply swept₄.ends
    intro item there
    exact (List.mem_append.1 there).imp (fun there => (within there).2) fun there => (within there).2
  subst last
  rw [List.append_nil] at sane ⊢
  have room : Room profile.admin g.ledger (r₁ ++ (r₂ ++ r₃)) := followed.room sane
  obtain ⟨room₁, room, grows⟩ := room.split swept₁.accepts
  obtain ⟨room₂, room₃, _⟩ := room.split swept₂.accepts
  refine ⟨g₁, g₂, g₃, r₁, r₂, r₃, ⟨swept₁, swept₂, swept₃, room₁, room₂, room₃, followed.offered,
    fun item there => (within there).2, fun item there => ?_, followed.apart_bucket,
    fun item there => ⟨(within there).2, followed.revealing (within there).1 (within there).2⟩⟩, rfl⟩
  obtain ⟨tx, waits, recorded⟩ := followed.pending (within there).1 (within there).2
  have fresh := Followed.fresh sane recorded
  rw [hashes_append, hashes_append, List.mem_append, List.mem_append, not_or, not_or] at fresh
  exact ⟨tx, waits, waits.later swept₁.accepts fresh.1 grows, fresh.2.1⟩

namespace Parts

variable {g₁ g₂ g₃ : Ground} {r₁ r₂ r₃ : List Receipt}

/-- Out of step, no item that was not begun submits anything unless it is rejected. -/
theorem quiet (parts : Parts profile faults g g₁ g₂ g₃ r₁ r₂ r₃) (sure : ¬ faults.gateway)
    (free : profile.nonceOverride = none) (clear : Clear r₁) (outOfStep : g.OutOfStep profile.admin) :
    ∀ item ∈ Items.bucket g.store .initial, item.submission = none :=
  parts.begun.quiet_of_clear sure free outOfStep parts.initial clear

theorem resumes (parts : Parts profile faults g g₁ g₂ g₃ r₁ r₂ r₃) (sure : ¬ faults.gateway)
    (free : profile.nonceOverride = none) :
    (Clear r₂ ↔ ∀ item ∈ Items.bucket g.store .commitSent, item.Last profile.admin g₁.ledger) ∧
      (Clear r₂ → Items.bucket g.store .commitSent ≠ [] → g₂.InStep profile.admin) := by
  refine parts.resumed.resumes sure free parts.room₂ (fun item there => ?_) parts.apart
  obtain ⟨tx, _, waits, fresh⟩ := parts.waiting item there
  exact ⟨tx, waits, fresh⟩

/-- What waits and is not rejected was the last to be accepted already when the scan began. -/
theorem last_of_clear (parts : Parts profile faults g g₁ g₂ g₃ r₁ r₂ r₃) (sure : ¬ faults.gateway)
    (free : profile.nonceOverride = none) (clear : Clear r₂)
    (there : item ∈ Items.bucket g.store .commitSent) :
    item.Last profile.admin g.ledger ∧
      g₁.ledger.minedNonce profile.admin = g.ledger.minedNonce profile.admin := by
  obtain ⟨tx, waits, waits₁, _⟩ := parts.waiting item there
  have last := (parts.resumes sure free).1.1 clear item there
  have before := waits.before
  have equal := waits₁.last_iff.1 last
  have room := parts.room₁
  unfold Room at room
  have grows := (parts.begun.accepts.nonce (by omega)).1
  have mined : g₁.ledger.minedNonce profile.admin = g.ledger.minedNonce profile.admin :=
    UInt64.toNat_inj.1 (by omega)
  unfold Item.Last at last ⊢
  rw [← mined]
  exact ⟨last, rfl⟩

/-- Names are revealed without rejection after a commitment that was waited for, or in step from the
beginning. -/
theorem inStep_of_reveals (parts : Parts profile faults g g₁ g₂ g₃ r₁ r₂ r₃) (sure : ¬ faults.gateway)
    (free : profile.nonceOverride = none) (clear₁ : Clear r₁) (clear₃ : Clear r₃)
    (none : Items.bucket g.store .commitSent = []) (some : Items.bucket g.store .commitDone ≠ []) :
    g.InStep profile.admin := by
  rcases inStep_or_outOfStep parts.offered with inStep | outOfStep
  · exact inStep
  · obtain ⟨_, ledger, nonce⟩ := @Swept.idles _ _ _ _ _ _ profile.admin parts.begun parts.initial
      (parts.quiet sure free clear₁ outOfStep)
    have resumed := parts.resumed
    rw [none] at resumed
    cases resumed
    have outOfStep₁ : g₁.OutOfStep profile.admin := by
      unfold Ground.OutOfStep at *
      rw [nonce, ledger]
      exact outOfStep
    exact absurd (parts.revealed.none_of_clear sure free outOfStep₁ parts.done clear₃) some

/-- Nothing of a scan is rejected only if what is left fits the next nonce. -/
theorem resumable_of_clear (parts : Parts profile faults g g₁ g₂ g₃ r₁ r₂ r₃) (sure : ¬ faults.gateway)
    (free : profile.nonceOverride = none) (clear₁ : Clear r₁) (clear₂ : Clear r₂) (clear₃ : Clear r₃) :
    Resumable profile.admin g where
  begins item there submits := by
    rcases inStep_or_outOfStep parts.offered with inStep | outOfStep
    · exact inStep
    · exact absurd (parts.quiet sure free clear₁ outOfStep item there) submits
  resumes item there := by
    obtain ⟨last, mined⟩ := parts.last_of_clear sure free clear₂ there
    refine ⟨last, ?_⟩
    rcases inStep_or_outOfStep parts.offered with inStep | outOfStep
    · exact (parts.begun.begins sure free inStep parts.room₁ parts.initial).2.2.2 mined
    · intro other there' s submits
      rw [parts.quiet sure free clear₁ outOfStep other there'] at submits
      cases submits
  reveals some := by
    by_cases none : Items.bucket g.store .commitSent = []
    · exact .inl (parts.inStep_of_reveals sure free clear₁ clear₃ none some)
    · exact .inr none

/-- The items that were not begun are rejected nothing, they leave the account in step if it was, and they
send nothing if others wait. -/
theorem clear_begun (parts : Parts profile faults g g₁ g₂ g₃ r₁ r₂ r₃) (sure : ¬ faults.gateway)
    (free : profile.nonceOverride = none) (resumable : Resumable profile.admin g) :
    Clear r₁ ∧ (g.InStep profile.admin → g₁.InStep profile.admin) ∧
      (Items.bucket g.store .commitSent ≠ [] →
        g₁.ledger.minedNonce profile.admin = g.ledger.minedNonce profile.admin) := by
  rcases inStep_or_outOfStep parts.offered with inStep | outOfStep
  · obtain ⟨inStep₁, clear, unmoved⟩ :=
      parts.begun.begins sure free inStep parts.room₁ parts.initial
    refine ⟨clear, fun _ => inStep₁, fun some => ?_⟩
    obtain ⟨item, there⟩ := List.exists_mem_of_ne_nil _ some
    exact unmoved.1 (resumable.resumes item there).2
  · have outside := Ground.not_inStep_of_outOfStep outOfStep
    have quiet : ∀ item ∈ Items.bucket g.store .initial, item.submission = none :=
      fun item there => Classical.not_not.1 fun submits =>
        outside (resumable.begins item there submits)
    obtain ⟨rfl, ledger, _⟩ := @Swept.idles _ _ _ _ _ _ profile.admin parts.begun parts.initial quiet
    exact ⟨nofun, fun inStep => absurd inStep outside, fun _ => by rw [ledger]⟩

/-- The items that wait for their commitments are rejected nothing, and leave the account in step for the
names that are to be revealed. -/
theorem clear_resumed (parts : Parts profile faults g g₁ g₂ g₃ r₁ r₂ r₃) (sure : ¬ faults.gateway)
    (free : profile.nonceOverride = none) (resumable : Resumable profile.admin g) :
    Clear r₂ ∧ (Items.bucket g.store .commitDone ≠ [] → g₂.InStep profile.admin) := by
  obtain ⟨-, stays, unmoved⟩ := parts.clear_begun sure free resumable
  by_cases none : Items.bucket g.store .commitSent = []
  · have resumed := parts.resumed
    rw [none] at resumed
    cases resumed
    refine ⟨nofun, fun some => ?_⟩
    rcases resumable.reveals some with inStep | other
    · exact stays inStep
    · exact absurd none other
  · obtain ⟨clear_iff, inStep⟩ := parts.resumes sure free
    have clear : Clear r₂ := by
      apply clear_iff.2
      intro item there
      unfold Item.Last
      rw [unmoved none]
      exact (resumable.resumes item there).1
    exact ⟨clear, fun _ => inStep clear none⟩

theorem clear_revealed (parts : Parts profile faults g g₁ g₂ g₃ r₁ r₂ r₃) (sure : ¬ faults.gateway)
    (free : profile.nonceOverride = none) (resumable : Resumable profile.admin g) : Clear r₃ := by
  by_cases none : Items.bucket g.store .commitDone = []
  · have revealed := parts.revealed
    rw [none] at revealed
    cases revealed
    nofun
  · exact (parts.revealed.reveals sure free ((parts.clear_resumed sure free resumable).2 none)
      parts.room₃ parts.done).2

end Parts

/-- A scan is rejected nothing exactly if what is left to be done fits the next nonce. -/
theorem clear_iff_resumable
    (swept : Swept profile faults g (pending g.store Status.resumeBuckets) receipts g')
    (sure : ¬ faults.gateway) (free : profile.nonceOverride = none)
    (followed : Followed profile.admin base known g) (sane : Sane base (known ++ hashes receipts)) :
    Clear receipts ↔ Resumable profile.admin g := by
  obtain ⟨g₁, g₂, g₃, r₁, r₂, r₃, parts, rfl⟩ := swept.parts followed sane
  rw [clear_append, clear_append]
  constructor
  · rintro ⟨clear₁, clear₂, clear₃⟩
    exact parts.resumable_of_clear sure free clear₁ clear₂ clear₃
  · intro resumable
    exact ⟨(parts.clear_begun sure free resumable).1, (parts.clear_resumed sure free resumable).1,
      parts.clear_revealed sure free resumable⟩

end Registrar
