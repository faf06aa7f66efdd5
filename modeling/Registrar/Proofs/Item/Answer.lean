import Registrar.Proofs.Chronicle.StatusRecords
import Registrar.Proofs.Store.Exchanges

/-!
The answer of the work on an item, where the store may fail at any request and the gateway may answer
anything:

* `Processor.rounds_eq`: taken round by round, as a loop that goes on until it is told to stop, the work
  is over after four rounds at most, and is the same work;
* `Processor.tells_process`: it ends with an error only after the store failed, and then at once, and
  where the gateway refused something it does not complete the item;
* `Stands.conducts`: the item in hand is the one in the store, and is not at rest when it is given up;
* `Conducted.get?_after`: the record of an item is the one that was written last;
* `Processor.answer_stored`: so what is answered is what the store has.
-/

namespace Registrar

open Item (Kind Phase Status)

theorem Program.ends_any {I : Interface} {α : Type} (program : Program I α) :
    program.Ends fun _ => True := by
  induction program with
  | done value => trivial
  | ask request next ih => exact fun answer => ih answer

theorem Program.Ends.hears {α : Type} {program : Program Work α} {allowed : α → Prop}
    {heard : List Exchange} {value : α} (ends : program.Ends allowed)
    (hears : program.Hears heard value) : allowed value := by
  induction hears with
  | done => exact ends
  | ask _ ih => exact ih (ends _)

theorem Item.live_of_sending {item : Item} {phase : Phase} (sends : item.sending = some phase) :
    item.status.isTerminal = false := by
  obtain ⟨_, status, _⟩ | ⟨_, status, _⟩ | ⟨_, status, _⟩ := sending_cases sends <;>
    rw [status] <;> rfl

namespace Item.Status

theorem live_of_ahead {kind : Kind} {status next : Status} {later : List Status}
    (h : ahead kind status = next :: later) : status.isTerminal = false := by
  cases kind <;> cases status <;> simp_all [ahead, isTerminal]

theorem ne_of_ahead {kind : Kind} {status next : Status} {later : List Status}
    (h : ahead kind status = next :: later) : next ≠ status := by
  rintro rfl
  have again := ahead_next h
  rw [h] at again
  simp at again

/-- What lies ahead ends with the last status. -/
theorem terminal_iff_of_ahead {kind : Kind} {status next : Status} {later : List Status}
    (h : ahead kind status = next :: later) : next.isTerminal = true ↔ later = [] := by
  cases kind <;> cases status <;> simp [ahead] at h <;> obtain ⟨rfl, rfl⟩ := h <;> decide

theorem length_ahead (kind : Kind) (status : Status) : (ahead kind status).length ≤ 4 := by
  cases kind <;> cases status <;> decide

end Item.Status

namespace Processor

variable {item : Item}

/-- Write an item back if its status has changed, and tell whether it is left alone then. -/
def settle (previous : Status) (moved : Item) (next : Status) (stepFailed : Bool) :
    Program Work (Next Item (Except QueueError Unit × Item)) := do
  if next = previous then
    return if next.stops stepFailed then .finished (.ok (), moved) else .again moved
  else
    match ← persist { moved with status := next } with
    | (.error error, written) => return .finished (.error error, written)
    | (.ok (), written) =>
      return if next.stops stepFailed then .finished (.ok (), written) else .again written

/-- One round of the loop over an item: a step, whose failure is a status too unless it is one of the
books, and the change written back. -/
def round (item : Item) : Program Work (Next Item (Except QueueError Unit × Item)) := do
  match ← (moveNext item).run with
  | .ok (next, moved) => settle item.status moved next false
  | .error error =>
    if error.isInfrastructure then return .finished (.error error, item)
    else settle item.status item (Status.onFailure item.kind item.status) true

/-- Some rounds of the loop. There is no result if they are not enough. -/
def rounds : Nat → Item → Program Work (Option (Except QueueError Unit × Item))
  | 0, _ => return none
  | count + 1, item => do
    match ← round item with
    | .finished result => return some result
    | .again item => rounds count item

/-- A step leaves an item of the same kind under the same index. -/
theorem ends_step (item : Item) :
    (step item).run.Ends fun
      | .ok moved => moved.kind = item.kind ∧ moved.index = item.index
      | .error _ => True := by
  have sent : ∀ (phase : Phase) (attempt : Attempt Work QueueError TxHandle),
      (ExceptT.run (do return item.record (← attempt) phase)).Ends fun
        | .ok moved => moved.kind = item.kind ∧ moved.index = item.index
        | .error _ => True := by
    intro phase attempt
    refine (Program.ends_any attempt.run).bind fun result _ => ?_
    cases result with
    | error error => trivial
    | ok tx => exact ⟨Item.kind_record item tx phase, Item.index_record item tx phase⟩
  have waited : ∀ attempt : Attempt Work QueueError Unit,
      (ExceptT.run (do attempt; return item)).Ends fun
        | .ok moved => moved.kind = item.kind ∧ moved.index = item.index
        | .error _ => True := by
    intro attempt
    refine (Program.ends_any attempt.run).bind fun result _ => ?_
    cases result with
    | error error => trivial
    | ok => exact ⟨rfl, rfl⟩
  unfold step
  split
  · exact sent _ _
  · exact waited _
  · exact sent _ _
  · exact waited _
  · exact sent _ _
  · exact waited _
  · trivial

/-- After a step that fails the loop is over. -/
theorem settle_failed (live : item.status.isTerminal = false) {error : QueueError}
    (ends : error.isInfrastructure = false) :
    settle item.status item (Status.onFailure item.kind item.status) true =
      (fail item error).bind fun result => .done (.finished result) := by
  have moved : Status.onFailure item.kind item.status ≠ item.status := by
    intro same
    have terminal := Status.isTerminal_onFailure item.kind item.status
    rw [same, live] at terminal
    cases terminal
  unfold settle fail
  rw [if_neg moved, ends]
  refine congrArg (Program.bind _) (funext fun result => ?_)
  obtain ⟨error | ⟨⟩, written⟩ := result
  · rfl
  · rfl

theorem run_moveNext {next : Status} {later : List Status}
    (h : Status.ahead item.kind item.status = next :: later) :
    (moveNext item).run = (step item).run.bind fun result => .done (result.map (next, ·)) := by
  have first : Status.onSuccess item.kind item.status = some next := by
    unfold Status.onSuccess
    rw [h]
    rfl
  unfold moveNext
  rw [Status.live_of_ahead h]
  refine congrArg (Program.bind _) (funext fun result => ?_)
  cases result with
  | error error => rfl
  | ok moved =>
    simp only [ExceptT.bindCont, first]
    rfl

theorem run_moveNext_stuck (live : item.status.isTerminal = false)
    (h : Status.ahead item.kind item.status = []) :
    (moveNext item).run = .done (.error (.invalidState item.index item.kind item.status)) := by
  unfold moveNext
  rw [live]
  unfold step
  cases kind : item.kind <;> cases status : item.status <;> rw [kind, status] at h <;>
    first
    | exact absurd h (by decide)
    | (rw [status] at live; exact absurd live (by decide))
    | rfl

/-- As many rounds as there are statuses ahead are enough, and one for an item that has none. -/
theorem rounds_eq {ahead : List Status} {item : Item} {count : Nat}
    (h : Status.ahead item.kind item.status = ahead) (enough : ahead.length ≤ count + 1) :
    rounds (count + 1) item = (driveThrough ahead item).bind fun result => .done (some result) := by
  induction ahead generalizing item count with
  | nil =>
    unfold rounds round driveThrough
    cases live : item.status.isTerminal with
    | true =>
      have still : (moveNext item).run = .done (.ok (item.status, item)) := by
        unfold moveNext
        rw [live]
        rfl
      have stops : item.status.stops false = true := by simp [Status.stops, live]
      rw [still]
      simp [settle, stops, Program.bind]
    | false =>
      have ends : (QueueError.invalidState item.index item.kind item.status).isInfrastructure = false :=
        rfl
      rw [run_moveNext_stuck live h]
      simp only [Program.done_bind, ends, settle_failed live ends]
      exact Program.bind_assoc _ _ _
  | cons next later ih =>
    have live := Status.live_of_ahead h
    unfold rounds round driveThrough
    rw [run_moveNext h]
    refine (congrArg (Program.bind · _) (Program.bind_assoc _ _ _)).trans ?_
    refine (Program.bind_assoc _ _ _).trans (Eq.trans ?_ (Program.bind_assoc _ _ _).symm)
    refine (ends_step item).bind_congr fun result ended => ?_
    cases result with
    | error error =>
      cases books : error.isInfrastructure with
      | true => simp [fail, books, Except.map, Program.bind]
      | false =>
        simp only [Except.map, Program.bind, books, Bool.false_eq_true, if_false]
        rw [settle_failed live books]
        exact Program.bind_assoc _ _ _
    | ok moved =>
      have fresh := Status.ne_of_ahead h
      simp only [Except.map, Program.bind, settle, if_neg fresh]
      refine (Program.bind_assoc _ _ _).trans (Eq.trans ?_ (Program.bind_assoc _ _ _).symm)
      refine (ends_persist _).bind_congr fun result ended' => ?_
      obtain ⟨error | ⟨⟩, written⟩ := result
      · rfl
      · obtain ⟨date, rfl⟩ := ended'
        by_cases last : later = []
        · have stops : next.stops false = true := by
            simp [Status.stops, (Status.terminal_iff_of_ahead h).2 last]
          have rests := (Status.terminal_iff_of_ahead h).2 last
          subst last
          simp [stops, driveThrough, Item.dated, rests, Program.bind]
        · have goes : next.stops false = false := by
            have rests := mt (Status.terminal_iff_of_ahead h).1 last
            simp [Status.stops, rests]
          obtain ⟨fewer, rfl⟩ : ∃ fewer, count = fewer + 1 := by
            have some := List.length_pos_iff.2 last
            rw [List.length_cons] at enough
            exact ⟨count - 1, by omega⟩
          simp only [goes, Bool.false_eq_true, if_false]
          refine ih ?_ (by rw [List.length_cons] at enough; omega)
          have kind : moved.kind = item.kind := ended.1
          exact kind ▸ Status.ahead_next h

end Processor

/-- The store was asked for an item under an index, and did not have it. -/
def Missed (index : Int64) (heard : List Exchange) : Prop :=
  ⟨.store (.exists (Items.key index)), (.ok false : Except StoreError Bool)⟩ ∈ heard

/-- What the work on an item comes to by what was heard in it. It is over only where the store did not
fail, and is over with a failure where the gateway refused something. -/
inductive Processor.Judged (index : Int64) (heard : List Exchange) :
    Except QueueError Unit × Item → Prop where
  | ended {final} : Unbroken heard →
      ((∃ exchange ∈ heard, exchange.refused = true) → final.status ≠ .completed) →
      Judged index heard (.ok (), final)
  | broken {error final} : Broken heard error → Judged index heard (.error error, final)
  | missed {error final} : Missed index heard → Judged index heard (.error error, final)

namespace Processor

variable {item : Item} {heard later : List Exchange} {result : Except QueueError Unit × Item}
  {index : Int64}

theorem Judged.after (smooth : Smooth heard) (judged : Judged index later result) :
    Judged index (heard ++ later) result := by
  cases judged with
  | ended kept fails =>
    refine .ended (smooth.unbroken.append kept) fun refused => fails ?_
    obtain ⟨exchange, there, refused⟩ := refused
    obtain early | late := List.mem_append.1 there
    · rw [(smooth exchange early).2] at refused
      cases refused
    · exact ⟨exchange, late, refused⟩
  | broken broken => exact .broken (.append smooth.unbroken broken)
  | missed missed => exact .missed (List.mem_append_right heard missed)

/-- What writing an item back comes to. -/
theorem hears_persist (hears : (persist item).Hears heard result) :
    (∃ date, result = (.ok (), item.dated date) ∧ Smooth heard) ∨
      ∃ error, result.1 = .error error ∧ (Broken heard error ∨ Missed item.index heard) := by
  rw [persist_eq] at hears
  obtain ⟨date, _, rfl, checks⟩ := hears.of_ask
  obtain ⟨answer, _, rfl, writes⟩ := checks.of_ask
  have dated : Smooth [⟨.now, date⟩] := .one rfl rfl
  obtain error | _ | _ := answer
  · obtain ⟨rfl, rfl⟩ := writes.of_done
    exact .inr ⟨_, rfl, .inl (.append dated.unbroken (.one rfl (.inl rfl)))⟩
  · obtain ⟨rfl, rfl⟩ := writes.of_done
    exact .inr ⟨_, rfl, .inr (by simp [Missed])⟩
  · obtain ⟨answer, _, rfl, ends⟩ := writes.of_ask
    have there : Smooth [⟨.now, date⟩,
        ⟨.store (.exists (Items.key item.index)), (.ok true : Except StoreError Bool)⟩] :=
      dated.append (.one rfl rfl)
    obtain error | ⟨⟩ := answer
    · obtain ⟨rfl, rfl⟩ := ends.of_done
      exact .inr ⟨_, rfl, .inl (.append there.unbroken (.one rfl (.inl rfl)))⟩
    · obtain ⟨rfl, rfl⟩ := ends.of_done
      exact .inl ⟨date, rfl, there.append (.one rfl rfl)⟩

theorem judged_fail {error : QueueError} (live : item.status.isTerminal = false)
    (ends : error.isInfrastructure = false) (kept : Unbroken heard)
    (hears : (fail item error).Hears later result) : Judged item.index (heard ++ later) result := by
  unfold fail at hears
  rw [ends] at hears
  obtain ⟨date, rfl, smooth⟩ | ⟨error, same, broken | missed⟩ := hears_persist hears
  · exact .ended (kept.append smooth.unbroken) fun _ => Status.onFailure_ne_completed live
  · obtain ⟨_, final⟩ := result
    cases same
    exact .broken (.append kept broken)
  · obtain ⟨_, final⟩ := result
    cases same
    exact .missed (List.mem_append_right heard missed)

theorem judged_driveThrough {ahead : List Status} {item : Item}
    (h : Status.ahead item.kind item.status = ahead)
    (hears : (driveThrough ahead item).Hears heard result) : Judged item.index heard result := by
  induction ahead generalizing item heard with
  | nil =>
    unfold driveThrough at hears
    cases live : item.status.isTerminal with
    | true =>
      rw [live] at hears
      obtain ⟨rfl, rfl⟩ := hears.of_done
      apply Judged.ended .nil
      rintro ⟨exchange, there, -⟩
      cases there
    | false =>
      rw [live] at hears
      have ends : (QueueError.invalidState item.index item.kind item.status).isInfrastructure = false :=
        rfl
      exact judged_fail live ends .nil hears
  | cons next rest ih =>
    have live := Status.live_of_ahead h
    unfold driveThrough at hears
    obtain ⟨first, later, outcome, rfl, begins, goes⟩ := hears.of_bind
    have told := candid_step item first outcome begins
    have ended := (ends_step item).hears begins
    cases told with
    | ending kept ends => exact judged_fail live ends kept goes
    | @broken error broken =>
      have passed : fail item error = .done (.error error, item) := by
        unfold fail
        rw [broken.books]
        rfl
      dsimp only at goes
      rw [passed] at goes
      obtain ⟨rfl, rfl⟩ := goes.of_done
      rw [List.append_nil]
      exact .broken broken
    | @success moved smooth =>
      refine .after smooth ?_
      obtain ⟨kind, index⟩ := ended
      obtain ⟨second, last, written, rfl, writes, ends⟩ := goes.of_bind
      obtain ⟨date, rfl, smooth'⟩ | ⟨error, same, broken⟩ := hears_persist writes
      · refine .after smooth' ?_
        have ahead : Status.ahead moved.kind next = rest := by
          rw [kind]
          exact Status.ahead_next h
        have judged := @ih _ (({ moved with status := next } : Item).dated date) ahead ends
        exact index ▸ judged
      · obtain ⟨_, final⟩ := written
        cases same
        obtain ⟨rfl, rfl⟩ := ends.of_done
        rw [List.append_nil]
        obtain broken | missed := broken
        · exact .broken broken
        · exact .missed (index ▸ missed)

/-- What the work on an item answers by what was heard in it. -/
def Tells (index : Int64) (heard : List Exchange) : Except QueueError Status → Prop
  | .ok status => Unbroken heard ∧
      ((∃ exchange ∈ heard, exchange.refused = true) → status ≠ .completed)
  | .error error => Broken heard error ∨ Missed index heard

theorem Judged.tells (judged : Judged index heard result) :
    Tells index heard (result.1.map fun _ => result.2.status) := by
  cases judged with
  | ended kept fails => exact ⟨kept, fails⟩
  | broken broken => exact .inl broken
  | missed missed => exact .inr missed

theorem judged_persist (hears : (persist item).Hears heard result) :
    Judged item.index heard result := by
  obtain ⟨date, rfl, smooth⟩ | ⟨error, same, broken | missed⟩ := hears_persist hears
  · apply Judged.ended smooth.unbroken
    rintro ⟨exchange, there, refused⟩
    rw [(smooth exchange there).2] at refused
    cases refused
  · obtain ⟨_, final⟩ := result
    cases same
    exact .broken broken
  · obtain ⟨_, final⟩ := result
    cases same
    exact .missed missed

theorem tells_process {skip : Bool} {answer : Except QueueError Status}
    (hears : (process skip item).run.Hears heard answer) : Tells item.index heard answer := by
  have settled : ∀ {program : Program Work (Except QueueError Unit × Item)},
      (∀ heard result, program.Hears heard result → Judged item.index heard result) →
      (program.bind fun ending => .done (ending.1.map fun _ => ending.2.status)).Hears heard
        answer → Tells item.index heard answer := by
    intro program judged hears
    obtain ⟨first, later, result, rfl, begins, ends⟩ := hears.of_bind
    obtain ⟨rfl, rfl⟩ := ends.of_done
    rw [List.append_nil]
    exact (judged first result begins).tells
  cases live : item.status.isTerminal with
  | true =>
    unfold process at hears
    rw [live] at hears
    obtain ⟨rfl, rfl⟩ := Program.Hears.of_done hears
    apply And.intro Unbroken.nil
    rintro ⟨exchange, there, -⟩
    cases there
  | false =>
    cases skip with
    | false =>
      rw [run_process live] at hears
      exact settled (fun _ _ => judged_driveThrough rfl) hears
    | true =>
      rw [run_process_skip live] at hears
      exact settled (fun _ _ persists => @judged_persist item.skipped _ _ persists) hears

end Processor

/-- The item is the one in hand, and is not at rest while a step is on its way or when it was given
up. -/
def Stage.Bears (item : Item) : Stage → Prop
  | .idle => item.status.isTerminal = false
  | .held other _ => other = item
  | .sent other _ _ | .found other _ | .mined other _ | .noted other | .writing other _ =>
    other = item ∧ item.status.isTerminal = false

theorem Stage.Due.live {skip : Bool} {stage : Stage} {item other written : Item}
    (due : Due skip stage item written) (bears : stage.Bears other) :
    item = other ∧ other.status.isTerminal = false := by
  cases due with
  | failed live =>
    cases bears
    exact ⟨rfl, live⟩
  | skipped _ live =>
    cases bears
    exact ⟨rfl, live⟩
  | sent | noted => exact bears

/-- The item of an index in the store is the one in hand, or was given up. -/
structure Stands (store : Store) (index : Int64) (stage : Stage) : Prop where
  stored : ∃ item, Items.Has store item ∧ item.index = index ∧ stage.Bears item
  writing : ∀ written, stage.written = some written → written.index = index ∧ written.Fits

section

variable {skip : Bool} {store : Store} {index : Int64} {stage last : Stage} {exchange : Exchange}
  {heard : List Exchange}

theorem Stands.conducts (stands : Stands store index stage)
    (conducts : Conducts skip stage exchange last) (honest : exchange.Honest store) :
    Stands (exchange.on store) index last := by
  obtain ⟨⟨current, has, own, bears⟩, writing⟩ := stands
  have unwritten : ∀ {stage : Stage}, stage.written = none → ∀ written, stage.written = some written →
      written.index = index ∧ written.Fits := fun none written same => by
    cases none.symm.trans same
  cases conducts with
  | opens | promise =>
    cases bears
    exact ⟨⟨_, has, own, rfl⟩, unwritten rfl⟩
  | @commit _ _ _ _ _ answer sends | @register _ _ _ _ _ answer sends
  | @renew _ _ _ _ answer sends =>
    cases bears
    obtain error | tx := answer
    · exact ⟨⟨_, has, own, rfl⟩, unwritten rfl⟩
    · exact ⟨⟨_, has, own, rfl, Item.live_of_sending sends⟩, unwritten rfl⟩
  | @find _ _ _ _ _ answer waits =>
    cases bears
    obtain error | tx := answer
    · exact ⟨⟨_, has, own, rfl⟩, unwritten rfl⟩
    · exact ⟨⟨_, has, own, rfl, live_of_awaited waits⟩, unwritten rfl⟩
  | @await _ _ _ answer =>
    obtain ⟨rfl, live⟩ := bears
    obtain error | _ | _ := answer
    · exact ⟨⟨_, has, own, rfl⟩, unwritten rfl⟩
    · exact ⟨⟨_, has, own, rfl⟩, unwritten rfl⟩
    · exact ⟨⟨_, has, own, rfl, live⟩, unwritten rfl⟩
  | @note _ _ answer =>
    obtain ⟨rfl, live⟩ := bears
    obtain error | ⟨⟩ := answer
    · exact ⟨⟨_, has, own, live⟩, unwritten rfl⟩
    · exact ⟨⟨_, has.put (Items.key_ne_nonce _ _), own, rfl, live⟩, unwritten rfl⟩
  | date due =>
    obtain ⟨rfl, live⟩ := due.live bears
    refine ⟨⟨_, has, own, rfl, live⟩, fun written same => ?_⟩
    cases same
    exact ⟨(Item.index_eq_of_origin due.origin).trans own,
      (Item.fits_iff_of_origin due.origin).2 has.fits⟩
  | @check item written answer =>
    obtain ⟨rfl, live⟩ := bears
    obtain error | _ | _ := answer
    · exact ⟨⟨_, has, own, live⟩, unwritten rfl⟩
    · exact ⟨⟨_, has, own, live⟩, unwritten rfl⟩
    · exact ⟨⟨_, has, own, rfl, live⟩, writing⟩
  | @write item written answer =>
    obtain ⟨rfl, live⟩ := bears
    obtain error | ⟨⟩ := answer
    · exact ⟨⟨_, has, own, live⟩, unwritten rfl⟩
    · obtain ⟨index', fits⟩ := writing _ rfl
      have here : Items.key item.index = Items.key written.index := by rw [own, index']
      refine ⟨⟨written, ?_, index', rfl⟩, unwritten rfl⟩
      exact here ▸ Items.has_withItem fits

theorem Stands.conducted (stands : Stands store index stage)
    (conducted : Conducted skip stage heard last) (honest : Honest store heard) :
    Stands (store.after heard) index last := by
  induction conducted generalizing store with
  | stay => exact stands
  | step conducts _ ih => exact ih (stands.conducts conducts honest.1) honest.2

/-- Among the items that the work on one asks for, that one is always there. -/
theorem Conducted.not_missed (conducted : Conducted skip stage heard last)
    (stands : Stands store index stage) (honest : Honest store heard) : ¬ Missed index heard := by
  induction conducted generalizing store with
  | stay => intro missed; cases missed
  | @step _ exchange _ heard _ conducts _ ih =>
    intro missed
    obtain now | later := List.mem_cons.1 missed
    · obtain ⟨item, has, rfl, _⟩ := stands.stored
      subst now
      obtain told | ⟨_, told⟩ := honest.1
      · have absent : store.contains (Items.key item.index) = false := (Except.ok.inj told).symm
        rw [has.contains] at absent
        cases absent
      · cases told
    · exact ih (stands.conducts conducts honest.1) honest.2 later

/-- The record that an exchange puts under the key of an index. -/
def Exchange.version (index : Int64) (exchange : Exchange) : Option Bytes :=
  match exchange.put? with
  | some (key, record) => if key = Items.key index then some record else none
  | none => none

/-- The records that were written under the key of an index, in order. -/
def versions (index : Int64) (heard : List Exchange) : List Bytes :=
  heard.filterMap (Exchange.version index)

theorem Conducts.get?_on (conducts : Conducts skip stage exchange last) :
    (exchange.on store).get? (Items.key index) =
      ((exchange.version index).or (store.get? (Items.key index))) := by
  cases conducts with
  | opens | promise | commit | register | renew | find | await | date => rfl
  | @check _ _ answer => cases answer <;> rfl
  | @note _ tx answer =>
    obtain error | ⟨⟩ := answer
    · rfl
    · have apart := Items.key_ne_nonce index tx.sender
      simp [Exchange.on, Exchange.version, Exchange.put?, Store.serve, Store.get?_put, apart,
        apart.symm]
  | @write item written answer =>
    obtain error | ⟨⟩ := answer
    · rfl
    · by_cases same : Items.key index = Items.key item.index
      · simp [Exchange.on, Exchange.version, Exchange.put?, Store.serve, Store.get?_put, same]
      · simp [Exchange.on, Exchange.version, Exchange.put?, Store.serve, Store.get?_put, same,
          Ne.symm same]

/-- The record of an index is the one that was written last. -/
theorem Conducted.get?_after (conducted : Conducted skip stage heard last) :
    (store.after heard).get? (Items.key index) =
      (versions index heard).getLast?.or (store.get? (Items.key index)) := by
  induction conducted generalizing store with
  | stay => rfl
  | @step _ exchange _ heard _ conducts _ ih =>
    rw [Store.after_cons, ih, conducts.get?_on]
    unfold versions
    cases written : exchange.version index with
    | none => simp [written]
    | some record =>
      cases found : (heard.filterMap (Exchange.version index)).getLast? <;>
        simp [written, found, List.getLast?_cons]

end

theorem Fate.failure_of_heard {α : Type} {fate : Fate} {program : Program Work α}
    {state : Store × Nat} {exchange : Exchange} {fault : StoreError}
    (there : exchange ∈ fate.heard program state) (failed : exchange.failure = some fault) :
    ∃ n, (fate n).failure = some fault := by
  induction program generalizing state with
  | done value => cases there
  | ask request next ih =>
    obtain rfl | later := List.mem_cons.1 there
    · refine ⟨state.2, ?_⟩
      cases request with
      | now | gateway => cases failed
      | store request =>
        unfold Fate.answer Fortune.serve at failed
        cases told : (fate state.2).failure with
        | none =>
          rw [told] at failed
          cases failed
        | some error =>
          rw [told] at failed
          cases failed
          rfl
    · exact ih _ later

namespace Processor

/-- What the work on an item in a store comes to by what is heard in it. -/
theorem heard_process {skip : Bool} {item : Item} {store : Store} {record : Bytes}
    {heard : List Exchange} {answer : Except QueueError Status}
    (stored : store.get? (Items.key item.index) = some record)
    (decoded : Item.layout.decode record = .ok item)
    (hears : (process skip item).run.Hears heard answer) (honest : Honest store heard) :
    ∃ final, (store.after heard).get? (Items.key item.index) =
        some ((versions item.index heard).getLast?.getD record) ∧
      Item.layout.decode ((versions item.index heard).getLast?.getD record) = .ok final ∧
      final.index = item.index ∧ Tells item.index heard answer ∧
      (∀ status, answer = .ok status → status.isTerminal = true ∧ final.status = status) ∧
      ∀ error, answer = .error error → Broken heard error ∧ final.status.isTerminal = false := by
  have has : Items.Has store item := ⟨record, stored, decoded⟩
  have heeds : (process skip item).run.Heeds .wild (Conduct skip) Concludes (.held item none) :=
    heeds_conclude item
  obtain ⟨stage, conducted, concludes⟩ := heeds.conducted hears honest
  have start : Stands store item.index (.held item none) :=
    ⟨⟨item, has, rfl, rfl⟩, fun _ absent => by cases absent⟩
  have tells := tells_process hears
  obtain ⟨final, ⟨found, there, decoded'⟩, own, bears⟩ := (start.conducted conducted honest).stored
  have newest := @Conducted.get?_after skip store item.index _ _ _ conducted
  rw [stored] at newest
  have latest : (store.after heard).get? (Items.key item.index) =
      some ((versions item.index heard).getLast?.getD record) := by
    rw [newest]
    cases (versions item.index heard).getLast? <;> rfl
  rw [own, latest] at there
  cases there
  refine ⟨final, latest, decoded', own, tells, fun status answered => ?_, fun error answered => ?_⟩
  · subst answered
    obtain ⟨other, promise, rfl, rfl, terminal⟩ := concludes
    cases bears
    exact ⟨terminal, rfl⟩
  · subst answered
    cases (concludes : stage = .idle)
    obtain broken | missed := tells
    · exact ⟨broken, bears⟩
    · exact absurd missed (conducted.not_missed start honest)

/-- The answer of the work on an item is what the store has, whatever the gateway answers and whichever
requests the store fails. The loop over the item is over after four rounds at most. The record of the
item is the last that was written, or the one it had. If a status is answered, it is terminal and is
that of the item in the store. If an error is answered, it is the failure of a request to the store, and
the item in the store is one that a resume scan takes up. -/
theorem answer_stored (skip : Bool) (item : Item) (fate : Fate) (state : Store × Nat) (record : Bytes)
    (stored : state.1.get? (Items.key item.index) = some record)
    (decoded : Item.layout.decode record = .ok item) :
    let last := (process skip item).run.runWith fate.answer state
    let written := versions item.index (fate.heard (process skip item).run state)
    (∃ final, last.2.1.get? (Items.key item.index) = some (written.getLast?.getD record) ∧
      Item.layout.decode (written.getLast?.getD record) = .ok final ∧ final.index = item.index ∧
      (∀ status, last.1 = .ok status → status.isTerminal = true ∧ final.status = status) ∧
      ∀ error, last.1 = .error error → error.isInfrastructure = true ∧
        final.status ∈ Status.resumeBuckets ∧ final.status.isTerminal = false ∧
        ∃ n fault, (fate n).failure = some fault ∧
          (error = .store fault ∨ error = .nonce (.store fault))) ∧
      rounds 4 item = (drive item).bind fun result => .done (some result) := by
  intro last written
  obtain ⟨final, there, decoded', own, _, rests, fails⟩ :=
    heard_process stored decoded (fate.hears _ state) (fate.honest _ state)
  rw [← fate.store_after] at there
  refine ⟨⟨final, there, decoded', own, rests, fun error answered => ?_⟩,
    rounds_eq rfl (Status.length_ahead _ _)⟩
  obtain ⟨broken, live⟩ := fails error answered
  refine ⟨broken.books, Status.mem_resumeBuckets.2 live, live, ?_⟩
  obtain ⟨front, failing, fault, split, _, failed, tells⟩ := broken
  have among : failing ∈ fate.heard (process skip item).run state := by
    rw [split]
    exact List.mem_append_right front (List.mem_singleton.2 rfl)
  obtain ⟨n, failure⟩ := Fate.failure_of_heard among failed
  exact ⟨n, fault, failure, tells⟩

/-- A renewal is sent and recorded, and stays there when the store fails to note that it was mined. -/
theorem answer_stored_unnoted :
    let item : Item := .ofRequest 3 (.fill 1) 5 (.renew ⟨"a.any", 600⟩)
    let tx : TxHandle := ⟨.fill 9, .fill 8, 4⟩
    let fate : Fate := fun n =>
      { gateway
          | .connect => .ok ⟨""⟩
          | .bindController _ => .ok ⟨.fill 7⟩
          | .makeCommitment _ _ => .ok (.fill 6)
          | .authOptions _ => .ok ⟨.fill 8, 4, 1, 1⟩
          | .awaitMined _ _ => .ok true
          | .commit _ _ _ | .register _ _ _ | .renew _ _ _ _ | .findTx _ _ => .ok tx
        failure := if n = 10 then some (.io "full") else none
        now := 7 }
    let sent : Item :=
      { item with status := .renewSent, renewTx := ⟨some tx.hash, some 4⟩, dateModified := 7 }
    let last := (process false item).run.runWith fate.answer (Store.empty.withItem item, 0)
    last.1 = .error (.nonce (.store (.io "full"))) ∧ Items.Has last.2.1 sent ∧
      sent.status ∈ Status.resumeBuckets := by
  intro item tx fate sent last
  have answered : last.1 = .error (.nonce (.store (.io "full"))) := by decide +kernel
  obtain ⟨⟨final, there, decoded, own, _, resumes⟩, _⟩ :=
    answer_stored false item fate (Store.empty.withItem item, 0) (Items.encode item)
      (by decide +kernel) (by decide +kernel)
  have written : (versions item.index (fate.heard (process false item).run
      (Store.empty.withItem item, 0))).getLast?.getD (Items.encode item) = Items.encode sent := by
    decide +kernel
  rw [written] at there decoded
  have same : Item.layout.decode (Items.encode sent) = .ok sent := by decide +kernel
  cases same.symm.trans decoded
  exact ⟨answered, ⟨_, there, same⟩, (resumes _ answered).2.1⟩

end Processor

end Registrar
