import Registrar.Proofs.Nonce.InStep
import Registrar.Proofs.Queue.AddedItems
import Registrar.Proofs.Queue.WorkedItems

/-!
Adding and working over a store that does not fail: requests are added and indices are worked on, in any
order. No item is left half done between two calls (`Quiet`). While nothing else fails either, an
account in step stays in step, and one that is out of step stays so, for then nothing that is sent
is accepted.
-/

namespace Registrar

open Item (Phase Status)
open Ledger (Submission Profile)

/-- A call of a queue: a request is added, or the item of an index is worked on. -/
inductive QueueCall where
  | add (request : ItemRequest) (secret : Secret)
  | work (index : Int64)

namespace QueueCall

def program : QueueCall → Program Work Unit
  | .add request secret => (Queue.create request secret).run.bind fun _ => .done ()
  | .work index => (Processor.processIndex false index).run.bind fun _ => .done ()

/-- Some calls, one after the other. -/
def all : List QueueCall → Program Work Unit
  | [] => .done ()
  | call :: rest => call.program.bind fun () => all rest

def Fits : QueueCall → Prop
  | .add request _ => request.Fits
  | .work _ => True

instance : (call : QueueCall) → Decidable call.Fits
  | .add request _ => inferInstanceAs (Decidable request.Fits)
  | .work _ => inferInstanceAs (Decidable True)

end QueueCall

namespace Ground

variable {g : Ground} {account : Address}

/-- The next nonce of an account is on record. -/
def Recorded (g : Ground) (account : Address) : Prop :=
  (g.store.get? (Nonce.key account)).isSome = true

/-- A nonce is on record that the ledger does not accept. -/
def OutOfStep (g : Ground) (account : Address) : Prop :=
  ∃ nonce, g.nextNonce account = .ok nonce ∧ nonce ≠ g.ledger.minedNonce account

theorem outOfStep_withItem (item : Item) :
    (g.withItem item).OutOfStep account ↔ g.OutOfStep account := by
  unfold OutOfStep
  rw [nextNonce_withItem]
  rfl

theorem not_inStep_of_outOfStep (h : g.OutOfStep account) : ¬ g.InStep account := by
  obtain ⟨nonce, offered, other⟩ := h
  intro inStep
  unfold InStep at inStep
  rw [offered] at inStep
  exact other (Except.ok.inj inStep)

end Ground

/-- Every item in the store is at rest or was not begun. -/
structure Quiet (g : Ground) : Prop where
  tidy : Items.Tidy g.store
  items : ∀ item, Items.Holds g.store item → item.status.isTerminal = true ∨ item.Fresh

/-- What an call comes to: a request is put into the store, an item is driven, or there is no item
to be worked on. -/
inductive Ran (profile : Profile) (faults : Faults) (g : Ground) : List Receipt → Ground → Prop where
  | filed {g'} : Filed g g' → Ran profile faults g [] g'
  | driven {item receipts g' final} :
      Items.Holds g.store item → Driven profile faults g item receipts g' final →
      Ran profile faults g receipts g'
  | missed : Ran profile faults g [] g

variable {profile : Profile} {faults : Faults} {g g' : Ground} {item final : Item}
  {receipts : List Receipt} {s : Submission}

theorem quiet_of_empty (empty : g.store.scan Items.keyStart = []) : Quiet g where
  tidy := (Items.empty_of_scan empty).1
  items item held := absurd held ((Items.empty_of_scan empty).2 item)

theorem Quiet.filed (quiet : Quiet g) (filed : Filed g g') : Quiet g' where
  tidy := filed.tidy quiet.tidy
  items item held := by
    rcases filed.items item held with held | new
    · exact quiet.items item held
    · exact .inr new.fresh

theorem Quiet.drive (quiet : Quiet g) (held : Items.Holds g.store item)
    (driven : Driven profile faults g item receipts g' final) : Quiet g' where
  tidy := driven.tidy held quiet.tidy
  items other there := by
    have frame := driven.frame held
    by_cases apart : other.index = item.index
    · have same := Items.holds_inj there frame.held
        (apart.trans (Item.index_eq_of_origin driven.origin).symm)
      exact .inl (same ▸ driven.terminal)
    · exact quiet.items other ((frame.others other apart).1 there)

/-- In step, an item that was not begun leaves the account in step, and nothing of it is rejected. -/
theorem Driven.stays (driven : Driven profile faults g item receipts g' final)
    (sure : ¬ faults.gateway) (free : profile.nonceOverride = none) (inStep : g.InStep profile.admin)
    (room : (g.ledger.minedNonce profile.admin).toNat + 2 < 2 ^ 64)
    (ready : item.status.isTerminal = true ∨ item.Fresh) :
    g'.InStep profile.admin ∧ ∀ receipt ∈ receipts, Receipt.isRejected receipt = false := by
  rcases ready with terminal | fresh
  · obtain ⟨rfl, rfl, rfl⟩ := driven.at_rest terminal
    exact ⟨inStep, nofun⟩
  · obtain ⟨_, _, ⟨txs, rfl, _⟩, inStep'⟩ := driven.settles sure free inStep room fresh.1
    refine ⟨inStep', fun receipt there => ?_⟩
    obtain ⟨tx, _, rfl⟩ := List.mem_map.1 there
    rfl

/-- Out of step, an item that submits anything is rejected and ends with nothing done. -/
theorem Driven.rejected (driven : Driven profile faults g item receipts g' final)
    (sure : ¬ faults.gateway) (free : profile.nonceOverride = none)
    (outOfStep : g.OutOfStep profile.admin) (submits : item.submission = some s) :
    (∃ detail, receipts = [.error (.rejected detail)]) ∧
      final.status = Status.onFailure item.kind item.status ∧ g'.ledger = g.ledger ∧
      g'.OutOfStep profile.admin := by
  obtain ⟨nonce, known, other⟩ := outOfStep
  have offered : profile.offers g = .ok nonce := by
    unfold Ledger.Profile.offers Ground.offeredNonce
    rw [free]
    exact known
  obtain ⟨_, _, _, later, stepped, driven, rfl⟩ := driven.first (live_of_submission submits)
  obtain ⟨⟨detail, rfl⟩, date, rfl, rfl⟩ := stepped.refused sure submits offered other
  obtain ⟨rfl, rfl, rfl⟩ := driven.at_rest (Status.isTerminal_onFailure _ _)
  exact ⟨⟨detail, rfl⟩, rfl, rfl, (Ground.outOfStep_withItem _).2 ⟨nonce, known, other⟩⟩

/-- Out of step, an item that was not begun leaves the account out of step, and all of it is
rejected. -/
theorem Driven.fails (driven : Driven profile faults g item receipts g' final)
    (sure : ¬ faults.gateway) (free : profile.nonceOverride = none)
    (outOfStep : g.OutOfStep profile.admin) (ready : item.status.isTerminal = true ∨ item.Fresh) :
    g'.OutOfStep profile.admin ∧ ∀ receipt ∈ receipts, Receipt.isRejected receipt = true := by
  rcases ready with terminal | fresh
  · obtain ⟨rfl, rfl, rfl⟩ := driven.at_rest terminal
    exact ⟨outOfStep, nofun⟩
  · cases submits : item.submission with
    | some s =>
      obtain ⟨⟨detail, rfl⟩, _, _, outOfStep'⟩ := driven.rejected sure free outOfStep submits
      refine ⟨outOfStep', fun receipt there => ?_⟩
      rw [List.mem_singleton.1 there]
      rfl
    | none =>
      have live : item.status.isTerminal = false := by rw [fresh.1]; rfl
      obtain ⟨rfl, rfl, _⟩ := driven.idles live submits (awaited_of_initial fresh.1)
      exact ⟨(Ground.outOfStep_withItem _).2 outOfStep, nofun⟩

theorem Quiet.ran (quiet : Quiet g) (ran : Ran profile faults g receipts g') : Quiet g' := by
  cases ran with
  | filed filed => exact quiet.filed filed
  | driven held driven => exact quiet.drive held driven
  | missed => exact quiet

theorem Ran.stays (ran : Ran profile faults g receipts g') (quiet : Quiet g) (sure : ¬ faults.gateway)
    (free : profile.nonceOverride = none) (inStep : g.InStep profile.admin)
    (room : (g.ledger.minedNonce profile.admin).toNat + 2 < 2 ^ 64) :
    g'.InStep profile.admin ∧
      (g'.ledger.minedNonce profile.admin).toNat ≤ (g.ledger.minedNonce profile.admin).toNat + 2 ∧
      ∀ receipt ∈ receipts, Receipt.isRejected receipt = false := by
  cases ran with
  | filed filed =>
    refine ⟨?_, by rw [filed.ledger]; omega, nofun⟩
    unfold Ground.InStep
    rw [filed.nextNonce, filed.ledger]
    exact inStep
  | @driven item _ _ final held driven =>
    obtain ⟨inStep', taken⟩ := driven.stays sure free inStep room (quiet.items item held)
    exact ⟨inStep', driven.grows.trans (Nat.add_le_add_left item.toSend_le _), taken⟩
  | missed => exact ⟨inStep, Nat.le_add_right _ _, nofun⟩

theorem Ran.fails (ran : Ran profile faults g receipts g') (quiet : Quiet g) (sure : ¬ faults.gateway)
    (free : profile.nonceOverride = none) (outOfStep : g.OutOfStep profile.admin) :
    g'.OutOfStep profile.admin ∧ ∀ receipt ∈ receipts, Receipt.isRejected receipt = true := by
  cases ran with
  | filed filed =>
    refine ⟨?_, nofun⟩
    unfold Ground.OutOfStep
    rw [filed.nextNonce, filed.ledger]
    exact outOfStep
  | @driven item _ _ final held driven =>
    exact driven.fails sure free outOfStep (quiet.items item held)
  | missed => exact ⟨outOfStep, nofun⟩

section

variable {backend : Backend}

theorem QueueCall.ran (within : backend.Within faults) (steady : ¬ faults.store)
    (whole : ¬ faults.breaks) (tidy : Items.Tidy backend.ground.store) (call : QueueCall)
    (fits : call.Fits) :
    let performed := backend.perform call.program
    performed.backend.Within faults ∧ performed.backend.profile = backend.profile ∧
      performed.value = some () ∧
      Ran backend.profile faults backend.ground performed.receipts performed.backend.ground := by
  have ending : ∀ {α : Type} {program : Program Work α} {value : α},
      (backend.perform program).value = some value →
      backend.perform (program.bind fun _ => .done ()) =
        ⟨(backend.perform program).heard, some (), (backend.perform program).backend⟩ := by
    intro α program value finished
    rw [Backend.perform_bind finished]
    exact congrArg (Performance.mk · _ _) (List.append_nil _)
  cases call with
  | add request secret =>
    obtain ⟨kept, same, broke, filed, silent⟩ := create_filed within fits secret
    have finished : ∃ value, (backend.perform (Queue.create request secret).run).value = some value :=
      Option.ne_none_iff_exists'.1 fun none => whole (broke none)
    obtain ⟨value, finished⟩ := finished
    intro performed
    have performing : performed = _ := ending finished
    rw [performing]
    refine ⟨kept, same, rfl, ?_⟩
    change Ran _ _ _ (backend.perform (Queue.create request secret).run).receipts _
    rw [silent]
    exact .filed filed
  | work index =>
    cases present : backend.ground.store.get? (Items.key index) with
    | none =>
      obtain ⟨kept, same, finished, silent, ground⟩ :=
        Backend.processIndex_missing within steady present
      intro performed
      have performing : performed = _ := ending finished
      rw [performing]
      refine ⟨kept, same, rfl, ?_⟩
      change Ran _ _ _ (backend.perform (Processor.processIndex false index).run).receipts _
      dsimp only
      rw [silent, ground]
      exact .missed
    | some record =>
      obtain ⟨item, held, same⟩ := tidy _ _ present (Items.keyStart_isPrefixOf_key index)
      cases Items.key_inj same
      obtain ⟨kept, same, final, finished, driven⟩ :=
        Backend.processIndex_driven within steady whole held
      intro performed
      have performing : performed = _ := ending finished
      rw [performing]
      exact ⟨kept, same, rfl, .driven held driven⟩

/-- Errands while nothing fails: in step, none of what they send is rejected, and out of step, all of
it is. -/
theorem calls_performed (calls : List QueueCall) (within : backend.Within .none)
    (free : backend.profile.nonceOverride = none) (quiet : Quiet backend.ground)
    (fits : ∀ call ∈ calls, call.Fits) :
    let performed := backend.perform (QueueCall.all calls)
    performed.backend.Within .none ∧ performed.backend.profile = backend.profile ∧
      performed.value = some () ∧ Quiet performed.backend.ground ∧
      (backend.ground.InStep backend.profile.admin →
        (backend.ground.ledger.minedNonce backend.profile.admin).toNat + 2 * calls.length < 2 ^ 64 →
        performed.backend.ground.InStep backend.profile.admin ∧
          (performed.backend.ground.ledger.minedNonce backend.profile.admin).toNat ≤
            (backend.ground.ledger.minedNonce backend.profile.admin).toNat + 2 * calls.length ∧
          ∀ receipt ∈ performed.receipts, Receipt.isRejected receipt = false) ∧
      (backend.ground.OutOfStep backend.profile.admin →
        performed.backend.ground.OutOfStep backend.profile.admin ∧
          ∀ receipt ∈ performed.receipts, Receipt.isRejected receipt = true) := by
  induction calls generalizing backend with
  | nil =>
    exact ⟨within, rfl, rfl, quiet, fun inStep _ => ⟨inStep, Nat.le_refl _, nofun⟩,
      fun outOfStep => ⟨outOfStep, nofun⟩⟩
  | cons call rest ih =>
    obtain ⟨kept, same, finished, ran⟩ :=
      call.ran within id id quiet.tidy (fits _ List.mem_cons_self)
    obtain ⟨kept', same', finished', quiet', stays, fails⟩ :=
      ih kept (same ▸ free) (quiet.ran ran) fun call there => fits call (List.mem_cons_of_mem _ there)
    have goes : backend.perform (QueueCall.all (call :: rest)) = _ :=
      Backend.perform_bind (f := fun _ => QueueCall.all rest) finished
    rw [goes]
    intro performed
    have heard : performed.receipts = (backend.perform call.program).receipts ++ _ :=
      Performance.receipts_prepend _ _
    rw [same] at stays fails
    refine ⟨kept', same'.trans same, finished', quiet', fun inStep room => ?_, fun outOfStep => ?_⟩
    · rw [List.length_cons] at room
      obtain ⟨inStep', few, taken⟩ := ran.stays quiet id free inStep (by omega)
      obtain ⟨inStep'', few', taken'⟩ := stays inStep' (by omega)
      refine ⟨inStep'', ?_, fun receipt there => ?_⟩
      · rw [List.length_cons]
        exact few'.trans (by omega)
      · rw [heard] at there
        exact (List.mem_append.1 there).elim (taken receipt) (taken' receipt)
    · obtain ⟨outOfStep', refused⟩ := ran.fails quiet id free outOfStep
      obtain ⟨outOfStep'', refused'⟩ := fails outOfStep'
      refine ⟨outOfStep'', fun receipt there => ?_⟩
      rw [heard] at there
      exact (List.mem_append.1 there).elim (refused receipt) (refused' receipt)

end

end Registrar
