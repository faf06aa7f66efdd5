import Registrar.Proofs.Restart.Resumable

/-!
What a restart completes. In a scan of which nothing is rejected every item that is not at rest has its turn
(`Visited`), and its last step depends on what was on the ledger by then. `completes` says that every
registration is completed that asks alone for a name which nobody else has.
-/

namespace Registrar

open Item (Phase Status)
open Ledger (Submission Profile)

variable {profile : Profile} {faults : Faults} {g g' : Ground} {item final other : Item}
  {items : List Item} {receipts : List Receipt} {account : Address} {tx : TxHandle}
  {known : List TxHash} {base : Nat}

/-- The items that a scan is to find are different ones. -/
theorem pending_apart {store : Store} {buckets : List Status} (tidy : Items.Tidy store)
    (apart : buckets.Nodup) : ((pending store buckets).map (·.index)).Nodup := by
  unfold List.Nodup pending
  rw [List.pairwise_map, List.pairwise_flatMap]
  constructor
  · intro status _
    refine (Items.sorted_bucket tidy status).imp ?_
    intro a b before same
    rw [same] at before
    exact List.lt_irrefl _ before
  · refine apart.imp ?_
    intro status status' different a thereA b thereB same
    obtain ⟨heldA, rfl⟩ := (Items.mem_bucket tidy).1 thereA
    obtain ⟨heldB, rfl⟩ := (Items.mem_bucket tidy).1 thereB
    exact different (congrArg Item.status (Items.holds_inj heldA heldB same))

/-- The turn of one of several items. -/
theorem Swept.turn (swept : Swept profile faults g items receipts g') (there : item ∈ items)
    (held : ∀ other ∈ items, Items.Holds g.store other) (apart : (items.map (·.index)).Nodup) :
    ∃ before g₁ g₂ r₁ r₂ r₃ final, Swept profile faults g before r₁ g₁ ∧
      (∀ other ∈ before, Items.Holds g.store other ∧ other.index ≠ item.index) ∧
      Driven profile faults g₁ item r₂ g₂ final ∧ Items.Holds g'.store final ∧
      receipts = r₁ ++ (r₂ ++ r₃) := by
  obtain ⟨before, after, rfl⟩ := List.append_of_mem there
  rw [List.map_append, List.map_cons] at apart
  obtain ⟨_, apart₂, apart₃⟩ := List.nodup_append.1 apart
  obtain ⟨g₁, r₁, _, swept₁, rest, rfl⟩ := swept.split
  cases rest with
  | @cons _ _ r₂ g₂ final _ r₃ _ held' driven swept₂ =>
    refine ⟨before, g₁, g₂, r₁, r₂, r₃, final, swept₁, fun other inBefore => ?_, driven, ?_, rfl⟩
    · refine ⟨held other (List.mem_append_left _ inBefore), fun same => ?_⟩
      exact apart₃ _ (List.mem_map_of_mem inBefore) _ List.mem_cons_self same
    · apply (swept₂.keeps fun other inAfter => ?_).2 (driven.frame held').held
      rw [Item.index_eq_of_origin driven.origin]
      intro same
      exact (List.nodup_cons.1 apart₂).1 (same ▸ List.mem_map_of_mem inAfter)

/-- Two items with one commitment ask for one name. -/
def Injective (g : Ground) : Prop :=
  ∀ a b, Items.Holds g.store a → Items.Holds g.store b → a.commitment?.isSome = true →
    a.commitment? = b.commitment? → a.fullName = b.fullName

/-- No other item asks for the item's name. -/
def Item.Alone (item : Item) (g : Ground) : Prop :=
  ∀ other, Items.Holds g.store other → other.fullName = item.fullName → other.index = item.index

theorem Injective.not_taken (injective : Injective g) (held : Items.Holds g.store item)
    (owned : item.commitment?.isSome = true) (unnamed : g.ledger.name? item.fullName = none) :
    ¬ item.Taken g := by
  rintro ⟨other, held', alike, registered⟩
  have name : other.fullName = item.fullName := by
    rcases alike with name | commitment
    · exact name
    · exact (injective item other held held' owned commitment.symm).symm
  rw [name, unnamed] at registered
  cases registered

/-- What other items send leaves a name alone that was committed to. -/
theorem Swept.keeps_registrable {before : List Item} {owner : Address}
    (swept : Swept profile faults g before receipts g')
    (others : ∀ other ∈ before, Items.Holds g.store other ∧ other.index ≠ item.index)
    (held : Items.Holds g.store item) (owned : Processor.owner item = .ok owner)
    (alone : item.Alone g) (injective : Injective g) :
    g'.ledger.name? item.fullName = g.ledger.name? item.fullName ∧
      (g.ledger.canRegister (item.registration owner) = true →
        g'.ledger.canRegister (item.registration owner) = true) := by
  have accepts := swept.accepts
  have apart : ∀ other ∈ before, other.fullName ≠ item.fullName :=
    fun other there same => (others other there).2 (alone other (others other there).1 same)
  have name : g'.ledger.name? item.fullName = g.ledger.name? item.fullName := by
    apply accepts.name?
    rintro s ⟨other, there, asked⟩ concerns
    exact apart other there (asked.name concerns).symm
  refine ⟨name, fun can => ?_⟩
  obtain ⟨committed, unnamed⟩ := Ledger.canRegister_iff.1 can
  refine Ledger.canRegister_iff.2 ⟨accepts.committed ?_ committed, name.trans unnamed⟩
  rintro r ⟨other, there, asked⟩ same
  have own := Item.commitment?_of_owner owned
  refine apart other there (injective item other held (others other there).1 ?_ ?_).symm
  · rw [own]
    rfl
  · rw [own, asked.commitment, same]

/-- A name that was committed to and that nobody has taken can be registered. -/
theorem Item.Committed.canRegister {owner : Address} (committed : item.Committed g)
    (injective : Injective g) (held : Items.Holds g.store item)
    (owned : Processor.owner item = .ok owner) (unnamed : g.ledger.name? item.fullName = none) :
    g.ledger.canRegister (item.registration owner) = true := by
  obtain ⟨_, _, commitment, same, contained | taken⟩ := committed
  · rw [Item.commitment?_of_owner owned, Option.some_inj] at same
    exact Ledger.canRegister_iff.2 ⟨same ▸ contained, unnamed⟩
  · have some : item.commitment?.isSome = true := by rw [same]; rfl
    exact absurd taken (injective.not_taken held some unnamed)

/-- A name that is not the item's own, as far as the store knows, is nobody's. -/
theorem unnamed_of_hidden {ledger : Ledger} (hidden : (item.sent .register).hash = none)
    (unclaimed : ledger.name? item.fullName = none ∨ item.landed ledger .register = true) :
    ledger.name? item.fullName = none := by
  rcases unclaimed with unnamed | landed
  · exact unnamed
  · unfold Item.landed at landed
    rw [hidden] at landed
    cases landed

/-- The turn of an item in a scan of which nothing is rejected: others were worked on before, and what was
sent for them is not the item's. -/
structure Visited (profile : Profile) (faults : Faults) (g : Ground) (item : Item) (g₁ g₂ : Ground)
    (final : Item) : Prop where
  driven : ∃ heard, Driven profile faults g₁ item heard g₂ final ∧ Room profile.admin g₁.ledger heard ∧
    Clear heard
  offered : ∃ nonce, g₁.nextNonce profile.admin = .ok nonce
  grows : (g.ledger.minedNonce profile.admin).toNat ≤ (g₁.ledger.minedNonce profile.admin).toNat
  before : ∃ items sent, Swept profile faults g items sent g₁ ∧
    (∀ other ∈ items, Items.Holds g.store other ∧ other.index ≠ item.index) ∧
    ∀ phase hash, (item.sent phase).hash = some hash → hash ∉ hashes sent

/-- An item that is not at rest has its turn. -/
theorem Followed.visit (followed : Followed profile.admin base known g)
    (swept : Swept profile faults g (Registrar.pending g.store Status.resumeBuckets) receipts g')
    (sane : Sane base (known ++ hashes receipts)) (clear : Clear receipts)
    (held : Items.Holds g.store item) (live : item.status.isTerminal = false) :
    ∃ g₁ g₂ final, Visited profile faults g item g₁ g₂ final ∧ Items.Holds g'.store final ∧
      final.origin = item.origin := by
  have tidy := followed.tidy
  have there : item ∈ Registrar.pending g.store Status.resumeBuckets :=
    List.mem_flatMap.2 ⟨item.status, Status.mem_resumeBuckets.2 live, (Items.mem_bucket tidy).2 ⟨held, rfl⟩⟩
  have all : ∀ other ∈ Registrar.pending g.store Status.resumeBuckets, Items.Holds g.store other := by
    intro other inPending
    obtain ⟨status, _, found⟩ := List.mem_flatMap.1 inPending
    exact ((Items.mem_bucket tidy).1 found).1
  have room : Room profile.admin g.ledger receipts := followed.room sane
  obtain ⟨before, g₁, g₂, sent, heard, later, final, swept₁, others, driven, ended, rfl⟩ :=
    swept.turn there all (pending_apart tidy (by decide))
  obtain ⟨_, room, grows⟩ := room.split swept₁.accepts
  obtain ⟨room, _⟩ := room.split driven.accepts
  refine ⟨g₁, g₂, final, ⟨⟨heard, driven, room, (clear_append.1 (clear_append.1 clear).2).1⟩,
    swept₁.offered followed.offered, grows, before, sent, swept₁, others, ?_⟩, ended, driven.origin⟩
  intro phase hash recorded again
  apply Followed.fresh sane (followed.recorded item phase hash held recorded)
  rw [hashes_append]
  exact List.mem_append_left _ again

namespace Visited

variable {g₁ g₂ : Ground} {owner : Address}

/-- A transaction of the item is still on record when its turn comes. -/
theorem tx? (visit : Visited profile faults g item g₁ g₂ final) {phase : Phase} {hash : TxHash}
    (recorded : (item.sent phase).hash = some hash) : g₁.ledger.tx? hash = g.ledger.tx? hash := by
  obtain ⟨_, _, swept, _, fresh⟩ := visit.before
  exact swept.accepts.tx? (fresh phase hash recorded)

/-- An item that was not begun and asks for a free name is completed. -/
theorem completes_initial (visit : Visited profile faults g item g₁ g₂ final) (sure : ¬ faults.gateway)
    (free : profile.nonceOverride = none) (kind : item.kind = .register) (status : item.status = .initial)
    (owned : Processor.owner item = .ok owner) (unnamed : g₁.ledger.name? item.fullName = none) :
    final.status = .completed := by
  obtain ⟨heard, driven, room, clear⟩ := visit.driven
  have submits : item.submission = some (.commit (item.registration owner).commitment) := by
    unfold Item.submission
    rw [kind, status, owned]
    rfl
  have inStep := driven.inStep_of_clear sure free visit.offered submits clear
  obtain ⟨status', _⟩ := driven.settles sure free inStep (by unfold Room at room; omega) status
  rw [status']
  unfold Item.verdict
  rw [kind, owned, unnamed]
  rfl

/-- An item that waits for its commitment to a name that can be registered is completed. -/
theorem completes_commitSent (visit : Visited profile faults g item g₁ g₂ final) (sure : ¬ faults.gateway)
    (free : profile.nonceOverride = none) (pending : item.Pending profile.admin g.ledger tx)
    (owned : Processor.owner item = .ok owner)
    (can : g₁.ledger.canRegister (item.registration owner) = true) : final.status = .completed := by
  obtain ⟨heard, driven, room, clear⟩ := visit.driven
  obtain ⟨_, _, swept, _, fresh⟩ := visit.before
  have recorded : (item.sent .commit).hash = some tx.hash := by rw [pending.sent]
  obtain ⟨lands, only⟩ := driven.resumes sure free room
    (pending.later swept.accepts (fresh .commit tx.hash recorded) visit.grows) owned
  rw [(lands (only clear)).2.2]
  exact if_pos can

/-- An item whose name is to be revealed and can be registered is completed. -/
theorem completes_commitDone (visit : Visited profile faults g item g₁ g₂ final) (sure : ¬ faults.gateway)
    (free : profile.nonceOverride = none) (kind : item.kind = .register)
    (status : item.status = .commitDone) (owned : Processor.owner item = .ok owner)
    (can : g₁.ledger.canRegister (item.registration owner) = true) : final.status = .completed := by
  obtain ⟨heard, driven, room, clear⟩ := visit.driven
  have submits : item.submission = some (.register (item.registration owner)) := by
    unfold Item.submission
    rw [kind, status, owned]
    rfl
  have inStep := driven.inStep_of_clear sure free visit.offered submits clear
  obtain ⟨_, _, _, status'⟩ := driven.reveals sure free inStep (by unfold Room at room; omega) kind
    status owned
  rw [status']
  exact if_pos can

/-- An item that waits for a registration that took effect is completed. -/
theorem completes_registerSent (visit : Visited profile faults g item g₁ g₂ final) (sure : ¬ faults.gateway)
    (kind : item.kind = .register) (status : item.status = .registerSent)
    (sent : (item.sent .register).hash = some tx.hash)
    (there : g.ledger.tx? tx.hash = some ⟨tx, true⟩) : final.status = .completed := by
  obtain ⟨heard, driven, _⟩ := visit.driven
  have kept := (visit.tx? sent).trans there
  apply (driven.ends (.inl status)).2 tx sure
  · refine ⟨.register, tx.hash, _, ?_, sent, kept, rfl⟩
    unfold Item.awaited
    rw [kind, status]
  · unfold Ledger.landed
    rw [kept]
    rfl

end Visited

/-- A scan that is rejected nothing completes every registration that asks alone for a name that
nobody else has. -/
theorem completes {owner : Address}
    (swept : Swept profile faults g (pending g.store Status.resumeBuckets) receipts g')
    (sure : ¬ faults.gateway) (free : profile.nonceOverride = none)
    (followed : Followed profile.admin base known g) (sane : Sane base (known ++ hashes receipts))
    (clear : Clear receipts) (injective : Injective g) (held : Items.Holds g.store item)
    (kind : item.kind = .register) (live : item.status.isTerminal = false)
    (owned : Processor.owner item = .ok owner) (alone : item.Alone g)
    (unclaimed : g.ledger.name? item.fullName = none ∨ item.landed g.ledger .register = true) :
    ∃ final, Items.Holds g'.store final ∧ final.origin = item.origin ∧ final.status = .completed := by
  obtain ⟨g₁, g₂, final, visit, ended, origin⟩ := followed.visit swept sane clear held live
  refine ⟨final, ended, origin, ?_⟩
  obtain ⟨_, _, swept₁, others, _⟩ := visit.before
  obtain ⟨name, registrable⟩ := swept₁.keeps_registrable others held owned alone injective
  have can : item.Committed g → g₁.ledger.canRegister (item.registration owner) = true :=
    fun committed => registrable
      (committed.canRegister injective held owned (unnamed_of_hidden committed.hidden unclaimed))
  cases followed.traced item held with
  | initial status hidden =>
    exact visit.completes_initial sure free kind status owned
      (name.trans (unnamed_of_hidden hidden unclaimed))
  | commitSent tx status committed sent there sender earlier =>
    exact visit.completes_commitSent sure free
      ⟨status, kind, ⟨owner, owned⟩, sent, there, sender, earlier⟩ owned (can committed)
  | commitDone status committed =>
    exact visit.completes_commitDone sure free kind status owned (can committed)
  | registerSent tx success status _ sent there revealed =>
    have landed : item.landed g.ledger .register = success := by
      unfold Item.landed Ledger.landed
      rw [sent, Option.any_some, there]
      rfl
    have taken : success = true := by
      rcases revealed with taken | taken
      · exact taken
      · rcases unclaimed with unnamed | landed'
        · have some : item.commitment?.isSome = true := by
            rw [Item.commitment?_of_owner owned]
            rfl
          exact absurd taken (injective.not_taken held some unnamed)
        · exact landed.symm.trans landed'
    exact visit.completes_registerSent sure kind status sent (taken ▸ there)
  | renewSent _ kind' =>
    rw [kind] at kind'
    cases kind'
  | rest terminal =>
    rw [live] at terminal
    cases terminal

end Registrar
