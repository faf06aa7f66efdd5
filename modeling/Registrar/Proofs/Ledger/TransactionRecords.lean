import Mathlib.Data.List.Nodup
import Registrar.Ledger.Gateway
import Registrar.Proofs.Layout.RoundTrip
import Registrar.Proofs.Ledger.Journal

/-!
Transactions on record. The ledger keeps every transaction that it has accepted under its hash, and the
bytes that two of these hashes are made of differ in the blocks that the transactions opened, so senders
and nonces may come again:

* `txPreimage_inj`: the bytes tell sender, nonce and block;
* `Journal.nodup_preimages`: no two transactions are hashed from the same bytes;
* `Journal.tx?_run`: under a hash there is the last transaction that was accepted with it;
* `Journal.records_permanent`: what the gateway says of a transaction stays true, whatever follows.
-/

namespace Registrar.Ledger

/-- The bytes of a transaction's hash tell its sender, its nonce and its block. -/
theorem txPreimage_inj {sender sender' : Address} {nonce nonce' block block' : UInt64}
    (same : txPreimage sender nonce block = txPreimage sender' nonce' block') :
    sender = sender' ∧ nonce = nonce' ∧ block = block' := by
  have word : ∀ {m n : UInt64}, Bytes.bigEndian 8 m.toNat = Bytes.bigEndian 8 n.toNat → m = n := by
    intro m n digits
    refine UInt64.toNat_inj.1 (Bytes.bigEndian_inj ?_ ?_ digits)
    · simpa [Bytes.span] using m.toNat_lt
    · simpa [Bytes.span] using n.toNat_lt
  unfold txPreimage at same
  obtain ⟨front, last⟩ := List.append_inj' same (by simp)
  obtain ⟨first, middle⟩ := List.append_inj' front (by simp)
  exact ⟨Fixed.ext first, word middle, word last⟩

/-- What a submission has brought about, by the ledger before and the one right after it: its commitment is
recorded, its name is registered as it says, or the renewal is credited to its name. -/
def Submission.Applied (before after : Ledger) : Submission → Prop
  | .commit commitment => after.commitments.find? commitment = some after.block
  | .register registration =>
    before.name? registration.fullName = none ∧
      after.name? registration.fullName = some
        ⟨registration.account, registration.ownerAnyAddress, registration.spaceId, after.block, 0⟩
  | .renew fullName duration =>
    ∃ record, before.name? fullName = some record ∧
      after.name? fullName = some
        { record with
          updatedBlock := after.block
          renewedSeconds := saturatingAdd record.renewedSeconds duration }

/-- An accepted submission has brought about what it asks for exactly if it takes effect. -/
theorem applied_iff {ledger : Ledger} {sender : Address} {nonce : UInt64} {s : Submission} :
    s.Applied ledger (ledger.after sender nonce s) ↔ ledger.effective s = true := by
  cases s with
  | commit commitment =>
    refine iff_of_true ?_ rfl
    simp only [Submission.Applied, after, enact, Table.find?_set, if_true]
  | register registration =>
    simp only [Submission.Applied, effective, name?_after_register, block_after]
    constructor
    · rintro ⟨free, registered⟩
      by_contra cannot
      rw [if_neg fun gained => cannot gained.1, free] at registered
      cases registered
    · intro can
      exact ⟨(canRegister_iff.1 can).2, if_pos ⟨can, trivial⟩⟩
  | renew fullName duration =>
    simp only [Submission.Applied, effective, name?_after_renew, block_after, if_true, Table.contains]
    constructor
    · rintro ⟨record, known, -⟩
      exact Option.isSome_iff_exists.2 ⟨record, known⟩
    · intro there
      obtain ⟨record, known⟩ := Option.isSome_iff_exists.1 there
      have known : ledger.name? fullName = some record := known
      exact ⟨record, known, by rw [known]; rfl⟩

/-- The bytes that the hash of a transaction is made of. -/
def Entry.preimage (entry : Entry) : Bytes :=
  txPreimage entry.handle.sender entry.handle.nonce entry.block

namespace Journal

variable {blockTime : UInt64} {calls : List Call}

/-- The entries of a journal are those of the calls that were accepted. -/
theorem mem_entries_run {entry : Entry} :
    entry ∈ (run blockTime calls).entries ↔
      ∃ before call, before ++ [call] <+: calls ∧
        call.nonce = (run blockTime before).ledger.minedNonce call.sender ∧
        entry = (run blockTime before).entry call := by
  induction calls using List.reverseRecOn with
  | nil =>
    refine iff_of_false (fun there => nomatch there) ?_
    rintro ⟨before, call, first, -⟩
    simp at first
  | append_singleton calls call ih =>
    have last : (∃ before other, before ++ [other] <+: calls ++ [call] ∧
        other.nonce = (run blockTime before).ledger.minedNonce other.sender ∧
        entry = (run blockTime before).entry other) ↔
        entry ∈ (run blockTime calls).entries ∨
          (call.nonce = (run blockTime calls).ledger.minedNonce call.sender ∧
            entry = (run blockTime calls).entry call) := by
      rw [ih]
      constructor
      · rintro ⟨before, other, first, next, rfl⟩
        rcases List.prefix_concat_iff.1 first with same | first
        · obtain ⟨rfl, same⟩ := List.append_inj' same rfl
          obtain rfl : other = call := by simpa using same
          exact .inr ⟨next, rfl⟩
        · exact .inl ⟨before, other, first, next, rfl⟩
      · rintro (⟨before, other, first, next, rfl⟩ | ⟨next, rfl⟩)
        · exact ⟨before, other, first.trans (List.prefix_append _ _), next, rfl⟩
        · exact ⟨calls, call, List.prefix_rfl, next, rfl⟩
    rw [last, run_concat]
    rcases (run blockTime calls).serve_eq call with ⟨next, served⟩ | ⟨other, error, served⟩
    · rw [served]
      simp [accepting, next]
    · rw [served]
      simp [other]

/-- The blocks of the transactions are numbered from one on. -/
theorem blocks_run (few : (run blockTime calls).entries.length < 2 ^ 64) :
    (run blockTime calls).entries.map (·.block.toNat) =
      List.range' 1 (run blockTime calls).entries.length := by
  induction calls using List.reverseRecOn with
  | nil => rfl
  | append_singleton calls call ih =>
    have fewer := ((run blockTime calls).length_serve call).1
    rw [run_concat] at few ⊢
    have before := ih (by omega)
    have numbered := numbered_run blockTime calls (by omega)
    rcases (run blockTime calls).serve_eq call with ⟨next, served⟩ | ⟨_, error, served⟩
    · rw [served] at few ⊢
      have room : (run blockTime calls).entries.length + 1 < 2 ^ 64 := by
        simpa [accepting] using few
      have block : ((run blockTime calls).entry call).block.toNat =
          (run blockTime calls).entries.length + 1 := by
        unfold entry
        rw [toNat_add_one (by rw [numbered.block]; exact room), numbered.block]
      simp only [accepting, List.map_append, List.map_singleton, List.length_append,
        List.length_singleton, before, block]
      rw [List.range'_concat, Nat.one_mul, Nat.add_comm 1]
    · rw [served]
      exact before

/-- No two transactions are hashed from the same bytes. -/
theorem nodup_preimages (few : (run blockTime calls).entries.length < 2 ^ 64) :
    ((run blockTime calls).entries.map Entry.preimage).Nodup := by
  have blocks : ((run blockTime calls).entries.map (·.block.toNat)).Nodup := by
    rw [blocks_run few]
    exact List.nodup_range'
  refine List.Nodup.map_on ?_ (List.Nodup.of_map _ blocks)
  intro entry there other there' same
  have block : entry.block.toNat = other.block.toNat :=
    congrArg UInt64.toNat (txPreimage_inj same).2.2
  exact List.inj_on_of_nodup_map blocks there there' block

/-- Every hash on record is that of its transaction's bytes. -/
theorem hash_eq {entry : Entry} (there : entry ∈ (run blockTime calls).entries) :
    entry.handle.hash = Keccak.hash rfl entry.preimage := by
  obtain ⟨before, call, -, -, rfl⟩ := mem_entries_run.1 there
  rfl

/-- Under a hash there is the last transaction that was accepted with it. -/
theorem tx?_run (hash : TxHash) :
    (run blockTime calls).ledger.tx? hash =
      ((run blockTime calls).entries.reverse.find? fun entry => entry.handle.hash = hash).map
        fun entry => ⟨entry.handle, entry.success⟩ := by
  refine run_invariant (P := fun journal => journal.ledger.tx? hash =
    (journal.entries.reverse.find? fun entry => entry.handle.hash = hash).map
      fun entry => ⟨entry.handle, entry.success⟩) blockTime rfl ?_ calls
  intro journal call _ ih
  simp only [accepting, tx?_after, List.reverse_append, List.reverse_singleton,
    List.singleton_append, List.find?_cons]
  by_cases own : hash = (journal.ledger.nextTx call.sender call.nonce).hash
  · simp [own, entry]
  · have apart : decide ((journal.entry call).handle.hash = hash) = false :=
      decide_eq_false (Ne.symm own)
    simp only [if_neg own, apart]
    exact ih

/-- Among some calls, one that was accepted: the calls before it, itself, and its transaction. -/
structure Accepted (blockTime : UInt64) (calls before : List Call) (call : Call) (handle : TxHandle) :
    Prop where
  first : before ++ [call] <+: calls
  answer : ((run blockTime before).serve call).1 = .ok handle

variable {before : List Call} {call : Call} {handle : TxHandle}

/-- An accepted call is on record from then on. -/
theorem Accepted.mem_entries (accepted : Accepted blockTime calls before call handle) :
    handle = ((run blockTime before).entry call).handle ∧
      (run blockTime before).entry call ∈ (run blockTime calls).entries := by
  obtain ⟨next, same, -⟩ := serve_ok accepted.answer
  exact ⟨same, mem_entries_run.2 ⟨before, call, accepted.first, next, rfl⟩⟩

/-- Every entry is of an accepted call. -/
theorem accepted_of_mem {entry : Entry} (there : entry ∈ (run blockTime calls).entries) :
    ∃ before call, Accepted blockTime calls before call entry.handle := by
  obtain ⟨before, call, first, next, rfl⟩ := mem_entries_run.1 there
  refine ⟨before, call, first, ?_⟩
  rcases (run blockTime before).serve_eq call with ⟨-, served⟩ | ⟨other, -⟩
  · rw [served]
  · exact absurd next other

/-- The hash does not collide on the bytes of some transactions. -/
def CollisionFree (entries : List Entry) : Prop :=
  ∀ entry ∈ entries, ∀ other ∈ entries,
    Keccak.digest entry.preimage = Keccak.digest other.preimage → entry.preimage = other.preimage

/-- Without collisions every transaction is found under its own hash. -/
theorem tx?_of_mem (few : (run blockTime calls).entries.length < 2 ^ 64)
    (free : CollisionFree (run blockTime calls).entries) {entry : Entry}
    (there : entry ∈ (run blockTime calls).entries) :
    (run blockTime calls).ledger.tx? entry.handle.hash = some ⟨entry.handle, entry.success⟩ := by
  rw [tx?_run]
  cases found : (run blockTime calls).entries.reverse.find?
      fun other => other.handle.hash = entry.handle.hash with
  | none =>
    have missed := List.find?_eq_none.1 found entry (List.mem_reverse.2 there)
    exact absurd (decide_eq_true rfl) missed
  | some other =>
    have there' := List.mem_reverse.1 (List.mem_of_find?_eq_some found)
    have same : other.handle.hash = entry.handle.hash := by simpa using List.find?_some found
    rw [hash_eq there', hash_eq there] at same
    have alike := free _ there' _ there (congrArg Fixed.bytes same)
    obtain rfl : other = entry := List.inj_on_of_nodup_map (nodup_preimages few) there' there alike
    rfl

/-- Without an accepted call that returned it, a hash is not on record. -/
theorem tx?_unknown {hash : TxHash}
    (unknown : ∀ before call handle, Accepted blockTime calls before call handle →
      handle.hash ≠ hash) : (run blockTime calls).ledger.tx? hash = none := by
  rw [tx?_run, Option.map_eq_none_iff, List.find?_eq_none]
  intro entry there same
  obtain ⟨before, call, accepted⟩ := accepted_of_mem (List.mem_reverse.1 there)
  exact unknown before call _ accepted (of_decide_eq_true same)

end Journal

/-- Any gateway of the ledger finds a transaction under its hash, and says of it whether it was mined. -/
structure Recalled (ledger : Ledger) (handle : TxHandle) (success : Bool) : Prop where
  found : ∀ (profile : Profile) store connection,
    (profile.serve ⟨ledger, store⟩ (.findTx connection handle.hash)).1.answer = .ok handle
  mined : ∀ (profile : Profile) store connection,
    (profile.serve ⟨ledger, store⟩ (.awaitMined connection handle)).1.answer = .ok success

/-- No gateway of the ledger knows a transaction with this hash. -/
structure Unheard (ledger : Ledger) (hash : TxHash) : Prop where
  found : ∀ (profile : Profile) store connection,
    (profile.serve ⟨ledger, store⟩ (.findTx connection hash)).1.answer = .error (.txNotFound hash.render)
  mined : ∀ (profile : Profile) store connection (tx : TxHandle), tx.hash = hash →
    (profile.serve ⟨ledger, store⟩ (.awaitMined connection tx)).1.answer =
      .error (.txNotFound hash.render)

theorem recalled_of_tx? {ledger : Ledger} {handle : TxHandle} {success : Bool}
    (known : ledger.tx? handle.hash = some ⟨handle, success⟩) : Recalled ledger handle success where
  found profile store connection := by simp only [Profile.serve, known]
  mined profile store connection := by simp only [Profile.serve, known]

theorem unheard_of_tx? {ledger : Ledger} {hash : TxHash} (unknown : ledger.tx? hash = none) :
    Unheard ledger hash where
  found profile store connection := by simp only [Profile.serve, unknown, unknownTx]
  mined profile store connection tx same := by
    subst same
    simp only [Profile.serve, unknown, unknownTx]

namespace Journal

/-- Records of transactions are permanent and truthful. Over any calls of a new ledger, as long as its
counters are not full:

* the hashes of the accepted transactions are made of bytes that differ from one to the other;
* unless the hash collides on them, the transaction of an accepted call is found ever after, and whether
it is said to be mined is whether the call brought about what it asks for, and whether it used its nonce
up;
* a hash that no accepted call returned is not known. -/
theorem records_permanent (blockTime : UInt64) (calls : List Call)
    (few : (run blockTime calls).entries.length < 2 ^ 64) :
    ((∀ entry ∈ (run blockTime calls).entries,
        entry.handle.hash = Keccak.hash rfl entry.preimage) ∧
      ((run blockTime calls).entries.map Entry.preimage).Nodup) ∧
    (CollisionFree (run blockTime calls).entries →
      ∀ before call handle, Accepted blockTime calls before call handle →
        ∃ success, Recalled (run blockTime calls).ledger handle success ∧
          (success = true ↔ call.submission.Applied (run blockTime before).ledger
            (run blockTime (before ++ [call])).ledger) ∧
          (success = true ↔
            ((run blockTime (before ++ [call])).ledger.minedNonce call.sender).toNat =
              ((run blockTime before).ledger.minedNonce call.sender).toNat + 1)) ∧
    ∀ hash, (∀ before call handle, Accepted blockTime calls before call handle → handle.hash ≠ hash) →
      Unheard (run blockTime calls).ledger hash := by
  refine ⟨⟨fun entry there => hash_eq there, nodup_preimages few⟩,
    fun free before call handle accepted => ?_, fun hash unknown => unheard_of_tx? (tx?_unknown unknown)⟩
  obtain ⟨rfl, there⟩ := accepted.mem_entries
  obtain ⟨-, -, served⟩ := serve_ok accepted.answer
  have room : (run blockTime before).entries.length + 1 < 2 ^ 64 := by
    have fewer := length_run_mono blockTime accepted.first
    rw [run_concat, served, accepting, List.length_append] at fewer
    exact Nat.lt_of_le_of_lt fewer few
  have numbered := numbered_run blockTime before (by omega)
  refine ⟨_, recalled_of_tx? (tx?_of_mem few free there), ?_, ?_⟩
  · rw [run_concat, served]
    exact applied_iff.symm
  · rw [run_concat, served, numbered.minedNonce_accepting room]
    by_cases takes : (run blockTime before).ledger.effective call.submission = true <;>
      simp [entry, takes]

/-- A renewal is dropped, and a commitment is then accepted with the same nonce: each has its own record,
and a hash of zeros has none. -/
theorem records_permanent_dropped :
    let renewal : Call := ⟨.fill 1, 0, .renew "a.any" 5⟩
    let commit : Call := ⟨.fill 1, 0, .commit (.fill 8)⟩
    let dropped : TxHandle := ⟨txHash (.fill 1) 0 1, .fill 1, 0⟩
    let mined : TxHandle := ⟨txHash (.fill 1) 0 2, .fill 1, 0⟩
    let journal := run 0 [renewal, commit]
    (journal.entries.length < 2 ^ 64 ∧ CollisionFree journal.entries) ∧
      (Accepted 0 [renewal, commit] [] renewal dropped ∧ Recalled journal.ledger dropped false) ∧
      (Accepted 0 [renewal, commit] [renewal] commit mined ∧ Recalled journal.ledger mined true) ∧
      Unheard journal.ledger (.fill 0) := by
  intro renewal commit dropped mined journal
  have few : journal.entries.length < 2 ^ 64 :=
    Nat.lt_of_le_of_lt (length_run_le 0 [renewal, commit]) (by decide)
  obtain ⟨⟨hashed, -⟩, recalled, unheard⟩ := records_permanent 0 [renewal, commit] few
  have first : Accepted 0 [renewal, commit] [] renewal dropped := ⟨⟨[commit], rfl⟩, rfl⟩
  have second : Accepted 0 [renewal, commit] [renewal] commit mined := ⟨List.prefix_rfl, rfl⟩
  have apart : ((.fill 0 : TxHash) :: journal.entries.map (·.handle.hash)).Nodup := by decide +kernel
  obtain ⟨zeros, apart⟩ := List.nodup_cons.1 apart
  have free : CollisionFree journal.entries := by
    intro entry there other there' same
    have same : entry.handle.hash = other.handle.hash := by
      rw [hashed entry there, hashed other there']
      exact Fixed.ext same
    rw [List.inj_on_of_nodup_map apart there there' same]
  refine ⟨⟨few, free⟩, ⟨first, ?_⟩, ⟨second, ?_⟩, unheard (.fill 0) ?_⟩
  · obtain ⟨success, kept, -, spent⟩ := recalled free _ _ _ first
    obtain rfl : success = false := Bool.eq_false_iff.2 (mt spent.1 (by decide +kernel))
    exact kept
  · obtain ⟨success, kept, -, spent⟩ := recalled free _ _ _ second
    obtain rfl : success = true := spent.2 (by decide +kernel)
    exact kept
  · intro before call handle accepted same
    obtain ⟨own, there⟩ := accepted.mem_entries
    refine zeros (List.mem_map.2 ⟨_, there, ?_⟩)
    rw [← own, same]

end Journal

end Registrar.Ledger
