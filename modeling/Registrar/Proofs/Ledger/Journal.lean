import Mathlib.Algebra.Order.Ring.Nat
import Mathlib.Data.List.Induction
import Registrar.Proofs.Ledger.Submission

/-!
Journals of the ledger. A journal keeps every transaction that the ledger has accepted, in order, with the
block that it opened and whether it took effect; a call that is rejected leaves no trace in it. `serve_eq`
says what becomes of one call, and `nonces_in_order` what the nonces of an account come to over any number
of calls: those that were used up are `0, 1, 2, …`, each of them once.
-/

namespace Registrar.Ledger

/-- A call of the ledger. -/
structure Call where
  sender : Address
  nonce : UInt64
  submission : Submission
  deriving DecidableEq

/-- A transaction that was accepted, the block it opened, and whether it took effect. -/
structure Entry where
  submission : Submission
  handle : TxHandle
  block : UInt64
  success : Bool

/-- A ledger with the transactions that it has accepted. -/
structure Journal where
  ledger : Ledger
  entries : List Entry

/-- What becomes of a call, by the ledger before it and the one after it. A call is rejected for any nonce
but the next of its sender, and leaves everything as it was. A call that is accepted opens a block; it
moves the next nonce of its sender on by one if it takes effect, and no other. -/
structure Disciplined (before : Ledger) (call : Call) (answer : Except GatewayError TxHandle)
    (after : Ledger) : Prop where
  rejected : (∃ error, answer = .error error) ↔ call.nonce ≠ before.minedNonce call.sender
  low : call.nonce < before.minedNonce call.sender → answer = .error (.rejected
    s!"nonce too low: got {call.nonce}, expected {before.minedNonce call.sender}")
  high : before.minedNonce call.sender < call.nonce → answer = .error (.rejected
    s!"nonce too high: got {call.nonce}, expected {before.minedNonce call.sender}")
  unchanged : ∀ error, answer = .error error → after = before
  accepted : ∀ handle, answer = .ok handle →
    handle.sender = call.sender ∧ handle.nonce = call.nonce ∧
      after.block.toNat = before.block.toNat + 1 ∧
      (∃ success, after.tx? handle.hash = some ⟨handle, success⟩ ∧
        (after.minedNonce call.sender).toNat =
          (before.minedNonce call.sender).toNat + if success then 1 else 0) ∧
      ∀ other, other ≠ call.sender → after.minedNonce other = before.minedNonce other

section

variable {ledger : Ledger} {sender : Address} {nonce : UInt64} {s : Submission}

theorem block_after : (ledger.after sender nonce s).block = ledger.block + 1 := by
  cases s with
  | commit commitment => rfl
  | register registration => unfold after enact; dsimp only; split <;> rfl
  | renew fullName duration => unfold after enact; dsimp only; split <;> rfl

theorem submit_low (low : nonce < ledger.minedNonce sender) :
    ledger.submit sender nonce s = .error (.rejected
      s!"nonce too low: got {nonce}, expected {ledger.minedNonce sender}") := by
  cases s <;> simp only [submit, commit, register, renew, accept, if_pos low]

theorem submit_high (high : ledger.minedNonce sender < nonce) :
    ledger.submit sender nonce s = .error (.rejected
      s!"nonce too high: got {nonce}, expected {ledger.minedNonce sender}") := by
  have low : ¬ nonce < ledger.minedNonce sender := UInt64.lt_asymm high
  cases s <;> simp only [submit, commit, register, renew, accept, if_neg low, if_pos high]

end

namespace Journal

/-- The journal of a new ledger. -/
def start (blockTime : UInt64) : Journal := ⟨.fresh blockTime, []⟩

/-- The answer to a call, and the journal after it. -/
def serve (journal : Journal) (call : Call) : Except GatewayError TxHandle × Journal :=
  match journal.ledger.submit call.sender call.nonce call.submission with
  | .error error => (.error error, journal)
  | .ok (handle, ledger) =>
    (.ok handle,
      ⟨ledger,
        journal.entries ++ [⟨call.submission, handle, ledger.block, ledger.landed handle.hash⟩]⟩)

/-- The journal after some calls. -/
def run (blockTime : UInt64) (calls : List Call) : Journal :=
  calls.foldl (fun journal call => (journal.serve call).2) (start blockTime)

/-- The nonces that the transactions of an account have used up, in order. -/
def noncesOf (journal : Journal) (account : Address) : List Nat :=
  (journal.entries.filter fun entry => entry.success && decide (entry.handle.sender = account)).map
    (·.handle.nonce.toNat)

theorem run_concat (blockTime : UInt64) (calls : List Call) (call : Call) :
    run blockTime (calls ++ [call]) = ((run blockTime calls).serve call).2 := by
  simp [run]

/-- The entry of a call that is accepted. -/
def entry (journal : Journal) (call : Call) : Entry :=
  ⟨call.submission, journal.ledger.nextTx call.sender call.nonce, journal.ledger.block + 1,
    journal.ledger.effective call.submission⟩

/-- The journal after a call that is accepted. -/
def accepting (journal : Journal) (call : Call) : Journal :=
  ⟨journal.ledger.after call.sender call.nonce call.submission, journal.entries ++ [journal.entry call]⟩

theorem landed_accepting (journal : Journal) (call : Call) :
    (journal.accepting call).ledger.landed (journal.entry call).handle.hash =
      (journal.entry call).success :=
  (landed_after _).trans (if_pos rfl)

/-- A call is accepted with exactly the next nonce of its sender. -/
theorem serve_eq (journal : Journal) (call : Call) :
    (call.nonce = journal.ledger.minedNonce call.sender ∧
      journal.serve call = (.ok (journal.entry call).handle, journal.accepting call)) ∨
      (call.nonce ≠ journal.ledger.minedNonce call.sender ∧
        ∃ error, journal.serve call = (.error error, journal)) := by
  unfold serve
  rcases journal.ledger.submit_eq call.sender call.nonce call.submission with
    ⟨same, taken⟩ | ⟨other, detail, refused⟩
  · left
    refine ⟨same, ?_⟩
    have success := journal.landed_accepting call
    simp only [entry, accepting] at success
    simp only [taken, entry, accepting, block_after, success]
  · right
    refine ⟨other, .rejected detail, ?_⟩
    simp only [refused]

theorem serve_ok {journal : Journal} {call : Call} {handle : TxHandle}
    (accepted : (journal.serve call).1 = .ok handle) :
    call.nonce = journal.ledger.minedNonce call.sender ∧ handle = (journal.entry call).handle ∧
      (journal.serve call).2 = journal.accepting call := by
  rcases journal.serve_eq call with ⟨same, served⟩ | ⟨_, error, served⟩
  · rw [served] at accepted ⊢
    exact ⟨same, (Except.ok.inj accepted).symm, rfl⟩
  · rw [served] at accepted
    cases accepted

/-- What holds of a new journal, and is kept by every call that is accepted, holds of every run. -/
theorem run_invariant {P : Journal → Prop} (blockTime : UInt64) (begins : P (start blockTime))
    (accepts : ∀ journal call, call.nonce = journal.ledger.minedNonce call.sender → P journal →
      P (journal.accepting call)) (calls : List Call) : P (run blockTime calls) := by
  induction calls using List.reverseRecOn with
  | nil => exact begins
  | append_singleton calls call ih =>
    rw [run_concat]
    rcases (run blockTime calls).serve_eq call with ⟨same, served⟩ | ⟨_, error, served⟩
    · rw [served]
      exact accepts _ _ same ih
    · rw [served]
      exact ih

theorem length_serve (journal : Journal) (call : Call) :
    journal.entries.length ≤ (journal.serve call).2.entries.length ∧
      (journal.serve call).2.entries.length ≤ journal.entries.length + 1 := by
  rcases journal.serve_eq call with ⟨_, served⟩ | ⟨_, error, served⟩
  · simp [served, accepting]
  · simp [served]

/-- A journal has no more entries than calls were made. -/
theorem length_run_le (blockTime : UInt64) (calls : List Call) :
    (run blockTime calls).entries.length ≤ calls.length := by
  induction calls using List.reverseRecOn with
  | nil => simp [run, start]
  | append_singleton calls call ih =>
    have more := ((run blockTime calls).length_serve call).2
    rw [run_concat, List.length_append, List.length_singleton]
    omega

theorem length_run_mono (blockTime : UInt64) {calls later : List Call} (first : calls <+: later) :
    (run blockTime calls).entries.length ≤ (run blockTime later).entries.length := by
  obtain ⟨rest, rfl⟩ := first
  induction rest using List.reverseRecOn with
  | nil => simp
  | append_singleton rest call ih =>
    have more := ((run blockTime (calls ++ rest)).length_serve call).1
    rw [← List.append_assoc, run_concat]
    omega

/-- The counters of a journal say how many entries it has. -/
structure Numbered (journal : Journal) : Prop where
  block : journal.ledger.block.toNat = journal.entries.length
  nonces : ∀ account, journal.noncesOf account = List.range (journal.ledger.minedNonce account).toNat

theorem numbered_start (blockTime : UInt64) : (start blockTime).Numbered where
  block := rfl
  nonces _ := rfl

variable {journal : Journal} {call : Call}

theorem toNat_add_one {n : UInt64} (room : n.toNat + 1 < 2 ^ 64) : (n + 1).toNat = n.toNat + 1 := by
  rw [UInt64.toNat_add]
  exact Nat.mod_eq_of_lt room

/-- An account has used up no more nonces than there are transactions. -/
theorem Numbered.minedNonce_le (numbered : journal.Numbered) (account : Address) :
    (journal.ledger.minedNonce account).toNat ≤ journal.entries.length := by
  have counted := congrArg List.length (numbered.nonces account)
  rw [List.length_range, noncesOf, List.length_map] at counted
  rw [← counted]
  exact List.length_filter_le ..

theorem noncesOf_accepting (account : Address) :
    (journal.accepting call).noncesOf account =
      journal.noncesOf account ++
        if journal.ledger.effective call.submission = true ∧ call.sender = account then
          [call.nonce.toNat]
        else [] := by
  unfold noncesOf accepting
  rw [List.filter_append, List.map_append]
  congr 1
  by_cases own : call.sender = account
  · by_cases takes : journal.ledger.effective call.submission = true
    · simp [entry, nextTx, own, takes]
    · simp [entry, nextTx, own, takes]
  · simp [entry, nextTx, own]

theorem Numbered.minedNonce_accepting (numbered : journal.Numbered)
    (room : journal.entries.length + 1 < 2 ^ 64) (account : Address) :
    ((journal.accepting call).ledger.minedNonce account).toNat =
      (journal.ledger.minedNonce account).toNat +
        if journal.ledger.effective call.submission = true ∧ account = call.sender then 1 else 0 := by
  have bound := numbered.minedNonce_le account
  unfold accepting
  rw [minedNonce_after]
  split
  · exact toNat_add_one (by omega)
  · rfl

theorem Numbered.accepting (numbered : journal.Numbered)
    (next : call.nonce = journal.ledger.minedNonce call.sender)
    (room : journal.entries.length + 1 < 2 ^ 64) : (journal.accepting call).Numbered where
  block := by
    have same := numbered.block
    simp only [Journal.accepting, block_after, List.length_append, List.length_singleton]
    rw [toNat_add_one (by omega), same]
  nonces account := by
    rw [noncesOf_accepting, numbered.nonces, numbered.minedNonce_accepting room]
    by_cases own : call.sender = account
    · subst own
      by_cases takes : journal.ledger.effective call.submission = true
      · simp [takes, next, List.range_succ]
      · simp [takes]
    · simp [own, Ne.symm own]

/-- As long as the counters are not full, every run is numbered. -/
theorem numbered_run (blockTime : UInt64) (calls : List Call)
    (few : (run blockTime calls).entries.length < 2 ^ 64) : (run blockTime calls).Numbered := by
  induction calls using List.reverseRecOn with
  | nil => exact numbered_start blockTime
  | append_singleton calls call ih =>
    have fewer := ((run blockTime calls).length_serve call).1
    rw [run_concat] at few ⊢
    have numbered := ih (by omega)
    rcases (run blockTime calls).serve_eq call with ⟨next, served⟩ | ⟨_, error, served⟩
    · rw [served] at few ⊢
      refine numbered.accepting next ?_
      simpa [Journal.accepting] using few
    · rw [served]
      exact numbered

/-- One call of a journal whose counters have room. -/
theorem Numbered.disciplined (numbered : journal.Numbered)
    (room : (journal.serve call).2.entries.length < 2 ^ 64) :
    Disciplined journal.ledger call (journal.serve call).1 (journal.serve call).2.ledger where
  rejected := by
    rcases journal.serve_eq call with ⟨same, served⟩ | ⟨other, error, served⟩
    · simp [served, same]
    · simp [served, other]
  low below := by simp only [serve, submit_low below]
  high above := by simp only [serve, submit_high above]
  unchanged error failed := by
    rcases journal.serve_eq call with ⟨_, served⟩ | ⟨_, _, served⟩
    · rw [served] at failed
      cases failed
    · rw [served]
  accepted handle answered := by
    obtain ⟨next, rfl, served⟩ := serve_ok answered
    rw [served] at room ⊢
    have counted : journal.entries.length + 1 < 2 ^ 64 := by simpa [Journal.accepting] using room
    refine ⟨rfl, rfl, ?_, ⟨(journal.entry call).success, ?_, ?_⟩, fun other apart => ?_⟩
    · rw [(numbered.accepting next counted).block, numbered.block]
      simp [Journal.accepting]
    · exact (tx?_after _).trans (if_pos rfl)
    · rw [numbered.minedNonce_accepting counted]
      by_cases takes : journal.ledger.effective call.submission = true <;> simp [entry, takes]
    · unfold Journal.accepting
      rw [minedNonce_after, if_neg fun own => apart own.2]

/-- Over any calls of a new ledger, by any senders and with any nonces, as long as its counters are not
full: each call is answered as `Disciplined` says, and the transactions of an account that took effect
carry, in order, the nonces from `0` to the one before its next. -/
theorem nonces_in_order (blockTime : UInt64) (calls : List Call)
    (few : (run blockTime calls).entries.length < 2 ^ 64) :
    (∀ before call, before ++ [call] <+: calls →
      Disciplined (run blockTime before).ledger call ((run blockTime before).serve call).1
        (run blockTime (before ++ [call])).ledger) ∧
    ∀ account, (run blockTime calls).noncesOf account =
      List.range ((run blockTime calls).ledger.minedNonce account).toNat := by
  refine ⟨fun before call first => ?_, (numbered_run blockTime calls few).nonces⟩
  have room : (run blockTime (before ++ [call])).entries.length < 2 ^ 64 :=
    Nat.lt_of_le_of_lt (length_run_mono blockTime first) few
  have numbered : (run blockTime before).Numbered := by
    have fewer := length_run_mono blockTime (List.prefix_append before [call])
    exact numbered_run blockTime before (by omega)
  rw [run_concat] at room ⊢
  exact numbered.disciplined room

/-- Two senders: of the first one's calls one comes too late and one is dropped, of the second one's the
first comes too early. -/
theorem nonces_in_order_mixed :
    let calls : List Call :=
      [⟨.fill 1, 0, .commit (.fill 7)⟩, ⟨.fill 1, 0, .commit (.fill 8)⟩, ⟨.fill 2, 3, .commit (.fill 8)⟩,
        ⟨.fill 1, 1, .renew "a.any" 5⟩, ⟨.fill 1, 1, .commit (.fill 8)⟩, ⟨.fill 2, 0, .commit (.fill 9)⟩]
    (run 0 calls).entries.length < 2 ^ 64 ∧
      ((run 0 (calls.take 2)).serve ⟨.fill 2, 3, .commit (.fill 8)⟩).1 =
        .error (.rejected s!"nonce too high: got {(3 : UInt64)}, expected {(0 : UInt64)}") ∧
      (run 0 calls).noncesOf (.fill 1) = [0, 1] ∧ (run 0 calls).noncesOf (.fill 2) = [0] := by
  intro calls
  have few : (run 0 calls).entries.length < 2 ^ 64 :=
    Nat.lt_of_le_of_lt (length_run_le 0 calls) (by decide)
  obtain ⟨answered, inOrder⟩ := nonces_in_order 0 calls few
  have first : (run 0 calls).ledger.minedNonce (.fill 1) = 2 := by decide
  have second : (run 0 calls).ledger.minedNonce (.fill 2) = 1 := by decide
  have none : (run 0 (calls.take 2)).ledger.minedNonce (.fill 2) = 0 := by decide
  have early := (answered (calls.take 2) ⟨.fill 2, 3, .commit (.fill 8)⟩
    ⟨calls.drop 3, rfl⟩).high (by rw [none]; decide)
  refine ⟨few, ?_, ?_, ?_⟩
  · rw [early, none]
  · rw [inOrder, first]
    rfl
  · rw [inOrder, second]
    rfl

end Journal

end Registrar.Ledger
