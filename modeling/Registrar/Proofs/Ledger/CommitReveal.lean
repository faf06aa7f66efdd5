import Registrar.Proofs.Item.Backing
import Registrar.Proofs.Ledger.Journal

/-!
What a journal tells of commitments and names. A commitment is open when it was committed and not revealed
since, a name is held by whoever has registered it first, and its seconds are those of its renewals;
`Open` and `Recorded` read this off the entries of a journal, and `commit_reveal_rules` says that the
ledger keeps to it, whoever calls it and in whatever order.
-/

namespace Registrar.Ledger

namespace Entry

/-- The transaction has committed a commitment. -/
def Commits (entry : Entry) (commitment : Commitment) : Prop := entry.submission = .commit commitment

/-- The transaction has registered a name. -/
def Reveals (entry : Entry) (registration : Registration) : Prop :=
  entry.success = true ∧ entry.submission = .register registration

/-- Whether the transaction has registered or renewed a name. -/
def touches (entry : Entry) (name : String) : Bool :=
  entry.success && match entry.submission with
    | .commit _ => false
    | .register registration => registration.fullName = name
    | .renew fullName _ => fullName = name

/-- The seconds by which the transaction has renewed a name. -/
def seconds (entry : Entry) (name : String) : Nat :=
  match entry.submission with
  | .renew _ duration => if entry.touches name then duration.toNat else 0
  | .commit _ | .register _ => 0

end Entry

/-- A commitment was committed, and no registration with it has taken effect since. -/
def Open (entries : List Entry) (commitment : Commitment) : Prop :=
  ∃ before entry later, entries = before ++ entry :: later ∧ entry.Commits commitment ∧
    ∀ other ∈ later, ∀ registration, other.Reveals registration → registration.commitment ≠ commitment

/-- What the ledger knows of a name is what its transactions tell: nothing, if none has registered it; else
who has registered it, the seconds of its renewals, as far as they can be counted, and the block of the last
transaction that was about it. -/
def Recorded (entries : List Entry) (name : String) : Option NameRecord → Prop
  | none => ∀ entry ∈ entries, entry.touches name = false
  | some record =>
    (∃ entry ∈ entries, ∃ registration, entry.Reveals registration ∧ registration.fullName = name ∧
      record.owner = registration.account ∧ record.ownerAnyAddress = registration.ownerAnyAddress ∧
      record.spaceId = registration.spaceId) ∧
    record.renewedSeconds.toNat = min (2 ^ 64 - 1) (entries.map (·.seconds name)).sum ∧
    (entries.filter (·.touches name)).getLast?.map (·.block) = some record.updatedBlock

section

variable {entries : List Entry} {entry : Entry} {commitment : Commitment} {name : String}

theorem open_of_commits (commits : entry.Commits commitment) : Open (entries ++ [entry]) commitment :=
  ⟨entries, entry, [], rfl, commits, fun _ there => by cases there⟩

/-- A commitment stays open until it is revealed. -/
theorem Open.append (opened : Open entries commitment)
    (hidden : ∀ registration, entry.Reveals registration → registration.commitment ≠ commitment) :
    Open (entries ++ [entry]) commitment := by
  obtain ⟨before, first, later, rfl, commits, unrevealed⟩ := opened
  refine ⟨before, first, later ++ [entry], by simp, commits, fun other there => ?_⟩
  rcases List.mem_append.1 there with there | there
  · exact unrevealed other there
  · rw [List.mem_singleton.1 there]
    exact hidden

/-- A commitment is open after one more entry that does not commit it only if it was before, and the entry
does not reveal it. -/
theorem Open.of_append (opened : Open (entries ++ [entry]) commitment)
    (other : ¬ entry.Commits commitment) :
    Open entries commitment ∧
      ∀ registration, entry.Reveals registration → registration.commitment ≠ commitment := by
  obtain ⟨before, first, later, same, commits, unrevealed⟩ := opened
  rcases List.eq_nil_or_concat later with rfl | ⟨middle, last, rfl⟩
  · obtain ⟨_, eq⟩ := List.append_inj' same rfl
    cases eq
    exact absurd commits other
  · have split : entries ++ [entry] = (before ++ first :: middle) ++ [last] := by simpa using same
    obtain ⟨rfl, eq⟩ := List.append_inj' split rfl
    cases eq
    refine ⟨⟨before, first, middle, rfl, commits, fun e there => unrevealed e ?_⟩,
      unrevealed entry ?_⟩
    · simp [there]
    · simp

/-- What is open after a commitment was revealed has been committed since. -/
theorem Open.committed_since {before between : List Entry} {first : Entry} {registration : Registration}
    (opened : Open (before ++ first :: between) registration.commitment)
    (reveals : first.Reveals registration) : ∃ entry ∈ between, entry.Commits registration.commitment := by
  induction between using List.reverseRecOn with
  | nil =>
    have quiet : ¬ first.Commits registration.commitment := fun commits => by
      cases reveals.2.symm.trans commits
    exact absurd rfl ((opened.of_append quiet).2 registration reveals)
  | append_singleton between last ih =>
    by_cases commits : last.Commits registration.commitment
    · exact ⟨last, by simp, commits⟩
    · have split : before ++ first :: (between ++ [last]) = (before ++ first :: between) ++ [last] := by simp
      rw [split] at opened
      obtain ⟨entry, there, commits⟩ := ih (opened.of_append commits).1
      exact ⟨entry, List.mem_append_left _ there, commits⟩

end

namespace Journal

variable {journal : Journal} {call : Call} {commitment : Commitment} {name : String}

/-- The ledger holds exactly the open commitments. -/
def Promising (journal : Journal) : Prop :=
  ∀ commitment, journal.ledger.commitments.contains commitment = true ↔ Open journal.entries commitment

theorem Promising.accepting (promising : journal.Promising) (call : Call) :
    (journal.accepting call).Promising := by
  intro commitment
  have before := promising commitment
  cases s : call.submission with
  | commit made =>
    simp only [Journal.accepting, s, commitment_after_commit]
    by_cases same : commitment = made
    · have commits : (journal.entry call).Commits commitment := by
        simp [Entry.Commits, entry, s, same]
      simpa [same] using same ▸ open_of_commits commits
    · have other : ¬ (journal.entry call).Commits commitment := by
        simp [Entry.Commits, entry, s, Ne.symm same]
      have hidden : ∀ registration, (journal.entry call).Reveals registration →
          registration.commitment ≠ commitment := by
        simp [Entry.Reveals, entry, s]
      simp only [same, decide_false, Bool.false_or, before]
      exact ⟨fun opened => opened.append hidden, fun opened => (opened.of_append other).1⟩
  | register registration =>
    have other : ¬ (journal.entry call).Commits commitment := by simp [Entry.Commits, entry, s]
    have reveals : ∀ r, (journal.entry call).Reveals r ↔
        journal.ledger.canRegister registration = true ∧ registration = r := by
      simp [Entry.Reveals, entry, s, effective]
    simp only [Journal.accepting, s, commitment_after_register, Bool.and_eq_true, before,
      Bool.not_eq_true', Bool.and_eq_false_iff, decide_eq_false_iff_not]
    constructor
    · rintro ⟨opened, hidden⟩
      refine opened.append fun r revealed => ?_
      obtain ⟨can, rfl⟩ := (reveals r).1 revealed
      rcases hidden with cannot | apart
      · rw [can] at cannot
        cases cannot
      · exact Ne.symm apart
    · intro opened
      obtain ⟨old, hidden⟩ := opened.of_append other
      refine ⟨old, ?_⟩
      by_cases can : journal.ledger.canRegister registration = true
      · exact .inr (Ne.symm (hidden registration ((reveals _).2 ⟨can, rfl⟩)))
      · exact .inl (by simpa using can)
  | renew fullName duration =>
    have other : ¬ (journal.entry call).Commits commitment := by simp [Entry.Commits, entry, s]
    have hidden : ∀ registration, (journal.entry call).Reveals registration →
        registration.commitment ≠ commitment := by
      simp [Entry.Reveals, entry, s]
    simp only [Journal.accepting, s, commitment_after_renew, before]
    exact ⟨fun opened => opened.append hidden, fun opened => (opened.of_append other).1⟩

/-- The ledger knows of every name what the entries tell. -/
def Reporting (journal : Journal) : Prop :=
  ∀ name, Recorded journal.entries name (journal.ledger.name? name)

/-- A transaction that is not about a name leaves what is told of it. -/
theorem recorded_append_other {entries : List Entry} {entry : Entry} {known : Option NameRecord}
    (recorded : Recorded entries name known) (other : entry.touches name = false) :
    Recorded (entries ++ [entry]) name known := by
  cases known with
  | none =>
    intro e there
    rcases List.mem_append.1 there with there | there
    · exact recorded e there
    · rw [List.mem_singleton.1 there]
      exact other
  | some record =>
    obtain ⟨⟨first, there, registered⟩, seconds, block⟩ := recorded
    have none : entry.seconds name = 0 := by
      unfold Entry.seconds
      split <;> simp [other]
    refine ⟨⟨first, List.mem_append_left _ there, registered⟩, ?_, ?_⟩
    · simpa [none] using seconds
    · simpa [other] using block

/-- A registration that takes effect makes the record of a name that nobody had. -/
theorem recorded_append_registered {entries : List Entry} {entry : Entry} {registration : Registration}
    (recorded : Recorded entries registration.fullName none) (reveals : entry.Reveals registration) :
    Recorded (entries ++ [entry]) registration.fullName
      (some ⟨registration.account, registration.ownerAnyAddress, registration.spaceId, entry.block, 0⟩) := by
  have touched : entry.touches registration.fullName = true := by
    simp [Entry.touches, reveals.1, reveals.2]
  have first : entries.filter (·.touches registration.fullName) = [] := by
    simpa using (show ∀ entry ∈ entries, _ from recorded)
  have nothing : entries.map (·.seconds registration.fullName) = entries.map fun _ => 0 := by
    refine List.map_congr_left fun other there => ?_
    unfold Entry.seconds
    split <;> simp [recorded other there]
  have none : entry.seconds registration.fullName = 0 := by
    unfold Entry.seconds
    rw [reveals.2]
  refine ⟨⟨entry, by simp, registration, reveals, rfl, rfl, rfl, rfl⟩, ?_, ?_⟩
  · simp [nothing, none]
  · simp [first, touched]

/-- A renewal that takes effect adds its seconds to the record of the name. -/
theorem recorded_append_renewed {entries : List Entry} {entry : Entry} {record : NameRecord}
    {duration : UInt64} (recorded : Recorded entries name (some record)) (success : entry.success = true)
    (renews : entry.submission = .renew name duration) :
    Recorded (entries ++ [entry]) name
      (some { record with
        updatedBlock := entry.block
        renewedSeconds := saturatingAdd record.renewedSeconds duration }) := by
  obtain ⟨⟨first, there, registered⟩, seconds, -⟩ := recorded
  have touched : entry.touches name = true := by simp [Entry.touches, success, renews]
  have more : entry.seconds name = duration.toNat := by
    unfold Entry.seconds
    rw [renews]
    simp [touched]
  refine ⟨⟨first, List.mem_append_left _ there, registered⟩, ?_, ?_⟩
  · simp only [toNat_saturatingAdd, seconds, List.map_append, List.sum_append, List.map_singleton,
      List.sum_singleton, more, UInt64.size]
    omega
  · simp [touched]

theorem Reporting.accepting (reporting : journal.Reporting) (call : Call) :
    (journal.accepting call).Reporting := by
  intro name
  have before := reporting name
  cases s : call.submission with
  | commit made =>
    have other : (journal.entry call).touches name = false := by simp [Entry.touches, entry, s]
    simp only [Journal.accepting, s, name?_after_commit]
    exact recorded_append_other before other
  | register registration =>
    simp only [Journal.accepting, s, name?_after_register]
    split
    · rename_i gained
      obtain ⟨can, rfl⟩ := gained
      have reveals : (journal.entry call).Reveals registration := by
        simp [Entry.Reveals, entry, s, effective, can]
      rw [(canRegister_iff.1 can).2] at before
      exact recorded_append_registered before reveals
    · rename_i kept
      refine recorded_append_other before ?_
      by_cases can : journal.ledger.canRegister registration = true
      · have apart : registration.fullName ≠ name := fun same => kept ⟨can, same.symm⟩
        simp [Entry.touches, entry, s, apart]
      · simp [Entry.touches, entry, s, effective, can]
  | renew fullName duration =>
    simp only [Journal.accepting, s, name?_after_renew]
    by_cases same : name = fullName
    · subst same
      rw [if_pos rfl]
      cases known : journal.ledger.name? name with
      | none =>
        rw [known] at before
        have fails : (journal.entry call).touches name = false := by
          have unknown : journal.ledger.names.contains name = false := by
            simpa [Table.contains, name?] using known
          simp [Entry.touches, entry, s, effective, unknown]
        exact recorded_append_other before fails
      | some record =>
        rw [known] at before
        have takes : (journal.entry call).success = true := by
          have there : journal.ledger.names.contains name = true := by
            simp only [Table.contains]
            exact Option.isSome_iff_exists.2 ⟨record, known⟩
          simp [entry, s, effective, there]
        exact recorded_append_renewed before takes s
    · rw [if_neg same]
      refine recorded_append_other before ?_
      simp [Entry.touches, entry, s, Ne.symm same]

/-- Each registration in the journal was judged by what the journal held before it. -/
def Judged (journal : Journal) : Prop :=
  ∀ before entry, before ++ [entry] <+: journal.entries → ∀ registration,
    entry.Reveals registration → Open before registration.commitment

theorem Judged.accepting (judged : journal.Judged) (promising : journal.Promising) (call : Call) :
    (journal.accepting call).Judged := by
  intro before entry first registration reveals
  rcases List.prefix_concat_iff.1 first with last | earlier
  · obtain ⟨rfl, eq⟩ := List.append_inj' last rfl
    cases eq
    obtain ⟨success, registers⟩ := reveals
    have can : journal.ledger.canRegister registration = true := by
      simpa [Journal.entry, effective, show call.submission = _ from registers] using success
    exact (promising _).1 (canRegister_iff.1 can).1
  · exact judged before entry earlier registration reveals

/-- The ledger of a journal keeps to what its entries tell. -/
structure Lawful (journal : Journal) : Prop where
  promising : journal.Promising
  reporting : journal.Reporting
  judged : journal.Judged

theorem lawful_run (blockTime : UInt64) (calls : List Call) : (run blockTime calls).Lawful := by
  apply run_invariant blockTime
  · constructor
    · intro commitment
      refine iff_of_false (by simp [start, fresh, Table.contains]) ?_
      rintro ⟨before, entry, later, same, -⟩
      simp [start] at same
    · intro name entry there
      simp [start] at there
    · intro before entry first
      simp [start] at first
  · intro journal call _ lawful
    exact ⟨lawful.promising.accepting call, lawful.reporting.accepting call,
      lawful.judged.accepting lawful.promising call⟩

/-- A name once registered keeps its owner, whatever calls follow. -/
theorem name?_run (blockTime : UInt64) (calls later : List Call) {record : NameRecord}
    (known : (run blockTime calls).ledger.name? name = some record) :
    ∃ record', (run blockTime (calls ++ later)).ledger.name? name = some record' ∧
      record'.owner = record.owner ∧ record'.ownerAnyAddress = record.ownerAnyAddress ∧
      record'.spaceId = record.spaceId := by
  induction later using List.reverseRecOn with
  | nil => exact ⟨record, by simpa using known, rfl, rfl, rfl⟩
  | append_singleton later call ih =>
    obtain ⟨mid, found, owner, any, space⟩ := ih
    rw [← List.append_assoc, run_concat]
    rcases (run blockTime (calls ++ later)).serve_eq call with ⟨_, served⟩ | ⟨_, _, served⟩
    · rw [served]
      obtain ⟨last, found', owner', any', space', -⟩ := name?_grows found
      exact ⟨last, found', owner'.trans owner, any'.trans any, space'.trans space⟩
    · rw [served]
      exact ⟨mid, found, owner, any, space⟩

/-- What an accepted call does to commitments and names, by the journal before it. -/
theorem Lawful.accepted (lawful : journal.Lawful) (call : Call) :
    let later := journal.accepting call
    let success := later.ledger.landed (journal.entry call).handle.hash
    (∀ registration, call.submission = .register registration →
      (success = true ↔ Open journal.entries registration.commitment ∧
        journal.ledger.name? registration.fullName = none) ∧
      (success = true → later.ledger.commitments.contains registration.commitment = false)) ∧
    (success = false → later.ledger.names = journal.ledger.names ∧
      later.ledger.commitments = journal.ledger.commitments ∧
      later.ledger.nonces = journal.ledger.nonces) := by
  intro later success
  have same : success = journal.ledger.effective call.submission := journal.landed_accepting call
  refine ⟨fun registration registers => ⟨?_, fun succeeds => ?_⟩, fun dropped => ?_⟩
  · rw [same, registers, ← lawful.promising]
    exact canRegister_iff
  · rw [same, registers] at succeeds
    have can : journal.ledger.canRegister registration = true := succeeds
    simp [later, Journal.accepting, registers, commitment_after_register, can]
  · rw [same] at dropped
    cases s : call.submission with
    | commit made =>
      rw [s] at dropped
      cases dropped
    | register registration =>
      rw [s] at dropped
      simp only [later, Journal.accepting, after, s, dropped]
      exact ⟨rfl, rfl, rfl⟩
    | renew fullName duration =>
      rw [s] at dropped
      have unknown : journal.ledger.name? fullName = none := by
        simpa [effective, Table.contains, name?] using dropped
      have unknown' : (journal.ledger.included call.sender call.nonce false).name? fullName = none := unknown
      simp only [later, Journal.accepting, after, s, dropped, enact, unknown']
      exact ⟨rfl, rfl, rfl⟩

/-- Over any calls of a new ledger, by any senders and in any order: a registration that is accepted takes
effect exactly when its commitment is open and its name is free, and uses the commitment up; a transaction
that is dropped changes neither names nor commitments nor nonces; between two registrations with one
commitment it was committed again; a name once registered keeps its owner; and what is known of each name is
what the transactions tell. -/
theorem commit_reveal_rules (blockTime : UInt64) (calls : List Call) :
    let journal := run blockTime calls
    (∀ call handle, (journal.serve call).1 = .ok handle →
      let later := (journal.serve call).2
      (∀ registration, call.submission = .register registration →
        (later.ledger.landed handle.hash = true ↔ Open journal.entries registration.commitment ∧
          journal.ledger.name? registration.fullName = none) ∧
        (later.ledger.landed handle.hash = true →
          later.ledger.commitments.contains registration.commitment = false)) ∧
      (later.ledger.landed handle.hash = false → later.ledger.names = journal.ledger.names ∧
        later.ledger.commitments = journal.ledger.commitments ∧
        later.ledger.nonces = journal.ledger.nonces)) ∧
    (∀ before first between second rest registration again,
      journal.entries = before ++ first :: (between ++ second :: rest) → first.Reveals registration →
      second.Reveals again → again.commitment = registration.commitment →
      ∃ entry ∈ between, entry.Commits registration.commitment) ∧
    (∀ later name record, journal.ledger.name? name = some record →
      ∃ record', (run blockTime (calls ++ later)).ledger.name? name = some record' ∧
        record'.owner = record.owner ∧ record'.ownerAnyAddress = record.ownerAnyAddress ∧
        record'.spaceId = record.spaceId) ∧
    ∀ name, Recorded journal.entries name (journal.ledger.name? name) := by
  intro journal
  have lawful : journal.Lawful := lawful_run blockTime calls
  refine ⟨fun call handle answered => ?_, ?_, fun later name record known => ?_, lawful.reporting⟩
  · obtain ⟨-, rfl, served⟩ := serve_ok answered
    rw [served]
    exact lawful.accepted call
  · intro before first between second rest registration again split reveals reveals' same
    have earlier : (before ++ first :: between) ++ [second] <+: journal.entries :=
      ⟨rest, by rw [split]; simp⟩
    have opened := lawful.judged _ second earlier again reveals'
    rw [same] at opened
    exact opened.committed_since reveals
  · exact name?_run blockTime calls later known

end Journal

end Registrar.Ledger
