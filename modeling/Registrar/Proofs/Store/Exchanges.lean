import Registrar.Proofs.Resume.Drain

/-!
What a program hears. `Program.Hears` runs a program on a list of exchanges, whoever gives the
answers, and `Honest` says of such a list that a store gave its own: it told what it has, or failed.
Every run over a store is one on what was heard in it:

* `Fate.hears`, `Fate.honest` and `Fate.store_after` for a fate;
* `Program.Heeds.conducted`: what is heard in the work on an item is conducted from stage to stage;
* `Processor.candid_step`: a step tells whose failure it ends with, the store's or any other.
-/

namespace Registrar

open Item (Phase Status)

/-- With these answers, in this order, the program finishes with the value. -/
inductive Program.Hears {α : Type} : Program Work α → List Exchange → α → Prop where
  | done {value} : Hears (.done value) [] value
  | ask {request next answer heard value} : Hears (next answer) heard value →
      Hears (.ask request next) (⟨request, answer⟩ :: heard) value

namespace Program.Hears

variable {α β : Type} {heard : List Exchange}

theorem of_done {value result : α} (h : (Program.done value).Hears heard result) :
    heard = [] ∧ result = value := by
  cases h
  exact ⟨rfl, rfl⟩

theorem of_ask {request : Work.Request} {next : Work.Answer request → Program Work α} {result : α}
    (h : (Program.ask request next).Hears heard result) :
    ∃ answer rest, heard = ⟨request, answer⟩ :: rest ∧ (next answer).Hears rest result := by
  cases h with
  | ask later => exact ⟨_, _, rfl, later⟩

/-- What a program and the one after it hear is heard by one first, then by the other. -/
theorem of_bind {program : Program Work α} {f : α → Program Work β} {result : β}
    (h : (program.bind f).Hears heard result) :
    ∃ first later value, heard = first ++ later ∧ program.Hears first value ∧
      (f value).Hears later result := by
  induction program generalizing heard with
  | done value => exact ⟨[], heard, value, rfl, .done, h⟩
  | ask request next ih =>
    obtain ⟨answer, rest, rfl, after⟩ := of_ask h
    obtain ⟨first, later, value, rfl, begins, ends⟩ := ih answer after
    exact ⟨_, later, value, rfl, .ask begins, ends⟩

end Program.Hears

/-- What a store may answer: what it has, or an error. -/
def Exchange.Honest (store : Store) : Exchange → Prop
  | ⟨.store request, answer⟩ => answer = .ok (store.serve request).1 ∨ ∃ error, answer = .error error
  | _ => True

/-- What was heard came from a store that began as `store`. -/
def Honest : Store → List Exchange → Prop
  | _, [] => True
  | store, exchange :: rest => exchange.Honest store ∧ Honest (exchange.on store) rest

/-- The store after all that was heard of it. -/
def Store.after (store : Store) (heard : List Exchange) : Store :=
  heard.foldl (fun store exchange => exchange.on store) store

@[simp] theorem Store.after_nil (store : Store) : store.after [] = store := rfl

@[simp] theorem Store.after_cons (store : Store) (exchange : Exchange) (heard : List Exchange) :
    store.after (exchange :: heard) = (exchange.on store).after heard := rfl

namespace Fate

variable {α : Type} (fate : Fate)

theorem hears (program : Program Work α) (state : Store × Nat) :
    program.Hears (fate.heard program state) (program.runWith fate.answer state).1 := by
  induction program generalizing state with
  | done value => exact .done
  | ask request next ih => exact .ask (ih _ _)

theorem store_after (program : Program Work α) (state : Store × Nat) :
    (program.runWith fate.answer state).2.1 = state.1.after (fate.heard program state) := by
  induction program generalizing state with
  | done value => rfl
  | ask request next ih =>
    have same := (fate state.2).exchange_on state.1 request
    exact (ih _ _).trans (congrArg (Store.after · _) same.symm)

theorem honest_exchange (fortune : Fortune) (store : Store) (request : Work.Request) :
    (fortune.exchange store request).Honest store := by
  cases request with
  | now | gateway => trivial
  | store request =>
    unfold Fortune.exchange Fortune.serve
    cases fortune.failure with
    | none => exact .inl rfl
    | some error => exact .inr ⟨error, rfl⟩

theorem honest (program : Program Work α) (state : Store × Nat) :
    Honest state.1 (fate.heard program state) := by
  induction program generalizing state with
  | done value => trivial
  | ask request next ih =>
    have same := (fate state.2).exchange_on state.1 request
    have later := ih (fate.answer state request).1 (fate.answer state request).2
    exact ⟨honest_exchange _ _ _, same.symm ▸ later⟩

end Fate

/-- Exchanges that take the work on an item from one stage to another. -/
inductive Conducted (skip : Bool) : Stage → List Exchange → Stage → Prop where
  | stay {stage} : Conducted skip stage [] stage
  | step {stage exchange mid heard last} :
      Conducts skip stage exchange mid → Conducted skip mid heard last →
      Conducted skip stage (exchange :: heard) last

/-- What is heard of a store by work that keeps to its conduct takes it from stage to stage. -/
theorem Program.Heeds.conducted {α : Type} {skip : Bool} {program : Program Work α}
    {fits : α → Stage → Prop} {stage : Stage} {store : Store} {heard : List Exchange} {value : α}
    (heeds : program.Heeds .wild (Conduct skip) fits stage) (hears : program.Hears heard value)
    (honest : Honest store heard) :
    ∃ last, Conducted skip stage heard last ∧ fits value last := by
  induction hears generalizing stage store with
  | done => exact ⟨stage, .stay, heeds⟩
  | @ask request next answer heard value _ ih =>
    have replies : ∃ g', Surroundings.wild.Replies ⟨store, .fresh 0⟩ request answer g' := by
      cases request with
      | now | gateway => exact ⟨_, rfl⟩
      | store request =>
        obtain told | failed := honest.1
        · exact ⟨_, .inl ⟨told, rfl⟩⟩
        · exact ⟨_, .inr ⟨trivial, failed, rfl⟩⟩
    obtain ⟨g', replies⟩ := replies
    obtain ⟨mid, conducts, later⟩ := heeds _ answer g' replies
    obtain ⟨last, conducted, ends⟩ := ih later honest.2
    exact ⟨last, .step conducts conducted, ends⟩

/-- The failure of the store that is heard in an exchange. -/
def Exchange.failure : Exchange → Option StoreError
  | ⟨.store _, .error error⟩ => some error
  | _ => none

/-- Whether the gateway refuses what it is asked for in an exchange. -/
def Exchange.refused : Exchange → Bool
  | ⟨.gateway _, .error _⟩ => true
  | _ => false

/-- The store did not fail. -/
def Unbroken (heard : List Exchange) : Prop := ∀ exchange ∈ heard, exchange.failure = none

instance (heard : List Exchange) : Decidable (Unbroken heard) :=
  inferInstanceAs (Decidable (∀ exchange ∈ heard, exchange.failure = none))

/-- Neither the store nor the gateway failed. -/
def Smooth (heard : List Exchange) : Prop :=
  ∀ exchange ∈ heard, exchange.failure = none ∧ exchange.refused = false

/-- The store failed with the last that was heard, and the error tells of that. -/
def Broken (heard : List Exchange) (error : QueueError) : Prop :=
  ∃ front last fault, heard = front ++ [last] ∧ Unbroken front ∧ last.failure = some fault ∧
    (error = .store fault ∨ error = .nonce (.store fault))

section

variable {heard later : List Exchange} {error : QueueError} {exchange : Exchange}

theorem Unbroken.nil : Unbroken [] := fun _ there => nomatch there

theorem Smooth.nil : Smooth [] := fun _ there => nomatch there

theorem Smooth.unbroken (smooth : Smooth heard) : Unbroken heard := fun exchange there =>
  (smooth exchange there).1

theorem Unbroken.append (first : Unbroken heard) (second : Unbroken later) : Unbroken (heard ++ later) := by
  intro exchange there
  exact (List.mem_append.1 there).elim (first exchange) (second exchange)

theorem Smooth.append (first : Smooth heard) (second : Smooth later) : Smooth (heard ++ later) := by
  intro exchange there
  exact (List.mem_append.1 there).elim (first exchange) (second exchange)

theorem Broken.append (first : Unbroken heard) (broken : Broken later error) :
    Broken (heard ++ later) error := by
  obtain ⟨front, last, fault, rfl, kept, failed, tells⟩ := broken
  exact ⟨heard ++ front, last, fault, (List.append_assoc ..).symm, first.append kept, failed, tells⟩

theorem Smooth.one (sound : exchange.failure = none) (granted : exchange.refused = false) :
    Smooth [exchange] := by
  intro other there
  cases List.mem_singleton.1 there
  exact ⟨sound, granted⟩

theorem Unbroken.one (sound : exchange.failure = none) : Unbroken [exchange] := by
  intro other there
  cases List.mem_singleton.1 there
  exact sound

theorem Broken.one {fault : StoreError} (failed : exchange.failure = some fault)
    (tells : error = .store fault ∨ error = .nonce (.store fault)) : Broken [exchange] error :=
  ⟨[], exchange, fault, rfl, .nil, failed, tells⟩

theorem Broken.books (broken : Broken heard error) : error.isInfrastructure = true := by
  obtain ⟨_, _, _, _, _, _, rfl | rfl⟩ := broken <;> rfl

end

namespace Processor

/-- What a part of a step comes to: it succeeds where nothing failed, ends the item where the store did
not fail, or tells how the store failed. -/
inductive Outcome {α : Type} (heard : List Exchange) : Except QueueError α → Prop where
  | success {value} : Smooth heard → Outcome heard (.ok value)
  | ending {error} : Unbroken heard → error.isInfrastructure = false → Outcome heard (.error error)
  | broken {error} : Broken heard error → Outcome heard (.error error)

/-- The attempt tells whose failure it ends with. -/
def Candid {α : Type} (attempt : Attempt Work QueueError α) : Prop :=
  ∀ heard result, attempt.run.Hears heard result → Outcome heard result

variable {α β : Type} {item : Item}

theorem candid_pure (value : α) : Candid (pure value) := by
  intro heard result hears
  obtain ⟨rfl, rfl⟩ := Program.Hears.of_done hears
  exact .success .nil

theorem candid_throw {error : QueueError} (ends : error.isInfrastructure = false) :
    Candid (throw error : Attempt Work QueueError α) := by
  intro heard result hears
  obtain ⟨rfl, rfl⟩ := Program.Hears.of_done hears
  exact .ending .nil ends

theorem Candid.bind {attempt : Attempt Work QueueError α} {f : α → Attempt Work QueueError β}
    (first : Candid attempt) (later : ∀ value, Candid (f value)) : Candid (attempt >>= f) := by
  intro heard result hears
  obtain ⟨before, after, mid, rfl, begins, ends⟩ := Program.Hears.of_bind hears
  cases first before mid begins with
  | success smooth =>
    cases later _ after result ends with
    | success smooth' => exact .success (smooth.append smooth')
    | ending kept books => exact .ending (smooth.unbroken.append kept) books
    | broken broken => exact .broken (.append smooth.unbroken broken)
  | ending kept books =>
    obtain ⟨rfl, rfl⟩ := Program.Hears.of_done ends
    rw [List.append_nil]
    exact .ending kept books
  | broken broken =>
    obtain ⟨rfl, rfl⟩ := Program.Hears.of_done ends
    rw [List.append_nil]
    exact .broken broken

theorem candid_onGateway {lift : GatewayError → QueueError} (request : Gateway.Request)
    (ends : ∀ error, (lift error).isInfrastructure = false) :
    Candid (Work.onGateway lift request) := by
  intro heard result hears
  obtain ⟨answer, rest, rfl, after⟩ := Program.Hears.of_ask hears
  obtain ⟨rfl, rfl⟩ := Program.Hears.of_done after
  cases answer with
  | error error => exact .ending (.one rfl) (ends error)
  | ok value => exact .success (.one rfl rfl)

theorem candid_inPhase (phase : Phase) (request : Gateway.Request) :
    Candid (inPhase phase request) :=
  candid_onGateway request fun _ => rfl

theorem candid_bindController : Candid bindController := by
  unfold bindController
  refine (candid_onGateway _ fun _ => rfl).bind fun connection => ?_
  exact (candid_onGateway _ fun _ => rfl).bind fun controller => candid_pure _

theorem candid_owner : Candid (Attempt.of (owner item)) := by
  intro heard result hears
  obtain ⟨rfl, rfl⟩ := Program.Hears.of_done hears
  obtain ⟨account, owned⟩ | ⟨error, owned, ends⟩ := owner_cases item
  · rw [owned]
    exact .success .nil
  · rw [owned]
    exact .ending .nil ends

theorem candid_sendCommit : Candid (sendCommit item) := by
  unfold sendCommit
  refine candid_bindController.bind fun _ => candid_owner.bind fun _ => ?_
  refine (candid_inPhase _ _).bind fun _ => (candid_inPhase _ _).bind fun _ => ?_
  exact candid_inPhase _ _

theorem candid_sendRegister : Candid (sendRegister item) := by
  unfold sendRegister
  refine candid_bindController.bind fun _ => candid_owner.bind fun _ => ?_
  exact (candid_inPhase _ _).bind fun _ => candid_inPhase _ _

theorem candid_sendRenew : Candid (sendRenew item) := by
  unfold sendRenew
  refine candid_bindController.bind fun _ => (candid_inPhase _ _).bind fun _ => ?_
  exact candid_inPhase _ _

theorem candid_confirm (phase : Phase) : Candid (confirm item phase) := by
  unfold confirm
  cases (item.sent phase).hash with
  | none => exact candid_throw rfl
  | some hash =>
    refine (candid_onGateway _ fun _ => rfl).bind fun _ => (candid_inPhase _ _).bind fun tx => ?_
    refine (candid_inPhase _ _).bind fun success => ?_
    cases success with
    | false => exact candid_throw rfl
    | true =>
      intro heard result hears
      obtain ⟨answer, rest, rfl, after⟩ := Program.Hears.of_ask hears
      obtain error | ⟨⟩ := answer
      · obtain ⟨rfl, rfl⟩ := Program.Hears.of_done after
        exact .broken (.one rfl (.inr rfl))
      · obtain ⟨rfl, rfl⟩ := Program.Hears.of_done after
        exact .success (.one rfl rfl)

/-- A step tells whose failure it ends with. -/
theorem candid_step (item : Item) : Candid (step item) := by
  unfold step
  split
  · exact candid_sendCommit.bind fun _ => candid_pure _
  · exact (candid_confirm _).bind fun _ => candid_pure _
  · exact candid_sendRegister.bind fun _ => candid_pure _
  · exact (candid_confirm _).bind fun _ => candid_pure _
  · exact candid_sendRenew.bind fun _ => candid_pure _
  · exact (candid_confirm _).bind fun _ => candid_pure _
  · exact candid_throw rfl

end Processor

end Registrar
