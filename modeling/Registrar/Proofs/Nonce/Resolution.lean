import Mathlib.Data.List.Induction
import Registrar.Items
import Registrar.Proofs.Backend.Ground
import Registrar.Proofs.Layout.RoundTrip

/-!
Where nonces come from. Nonces are looked up and saved in any order, while items are written to the same
store; any request of the store may fail, and the network may say anything:

* `Diary.noted_run`: the store has for each account the nonce that was saved last, and for the others none;
* `resolved_by_last_saved`: so a look-up without a fixed nonce answers that one, and asks the network only
if there is none, never in the place of a store that failed.
-/

namespace Registrar.Nonce

/-- What befalls a request: the error of the store, if it fails, and what the network says. -/
structure Chance where
  failure : Option StoreError
  network : Except GatewayError UInt64

/-- A request, and what was answered. -/
structure Exchange where
  request : Request
  answer : request.Answer

/-- A store, and what was asked of it and of the network. -/
structure Desk where
  store : Store
  heard : List Exchange

/-- The desk after an answer. -/
def Desk.note (desk : Desk) (store : Store) (request : Request) (answer : request.Answer) :
    request.Answer × Desk :=
  (answer, ⟨store, desk.heard ++ [⟨request, answer⟩]⟩)

/-- The answer to the next request, and the desk after it. A store that fails stays as it is. -/
def Desk.serve (luck : Nat → Chance) (desk : Desk) : (request : Request) → request.Answer × Desk
  | .store request =>
    match (luck desk.heard.length).failure with
    | some error => desk.note desk.store (.store request) (.error error)
    | none =>
      desk.note (desk.store.serve request).2 (.store request) (.ok (desk.store.serve request).1)
  | .network account => desk.note desk.store (.network account) (luck desk.heard.length).network

/-- A look-up, with the nonce that is fixed if there is one, a nonce to be saved, or an item to be written
under an index that is still free, or in the place of another. -/
inductive Act where
  | look (fixed : Option UInt64) (account : Address)
  | save (account : Address) (nonce : UInt64)
  | insert (item : Item)
  | replace (item : Item)

/-- What is done, with the chances of its requests. -/
structure Turn where
  act : Act
  luck : Nat → Chance

/-- What was done, what was heard on the way, and how it ended. -/
inductive Event where
  | looked (fixed : Option UInt64) (account : Address) (heard : List Exchange)
    (answer : Except NonceError UInt64)
  | saved (account : Address) (nonce : UInt64) (heard : List Exchange)
    (answer : Except NonceError UInt64)
  | wrote (item : Item) (heard : List Exchange) (answer : Except QueueError Unit)

section

variable {ε α : Type}

/-- A look-up over a store and a network. -/
def consult (luck : Nat → Chance) (attempt : Attempt Access ε α) (store : Store) : Except ε α × Desk :=
  attempt.run.runWith (Desk.serve luck) ⟨store, []⟩

/-- What is attempted on the store alone. -/
def attempt (luck : Nat → Chance) (attempt : Attempt Store.Access ε α) (store : Store) :
    Except ε α × Desk :=
  attempt.run.runWith (fun desk request => desk.serve luck (.store request)) ⟨store, []⟩

end

/-- A turn, and the store after it. -/
def Turn.take (turn : Turn) (store : Store) : Event × Store :=
  match turn.act with
  | .look fixed account =>
    let (answer, desk) := consult turn.luck (current fixed account) store
    (.looked fixed account desk.heard answer, desk.store)
  | .save account nonce =>
    let (answer, desk) := attempt turn.luck (save account nonce) store
    (.saved account nonce desk.heard answer, desk.store)
  | .insert item =>
    let (answer, desk) := attempt turn.luck (Items.insert item) store
    (.wrote item desk.heard answer, desk.store)
  | .replace item =>
    let (answer, desk) := attempt turn.luck (Items.replace item) store
    (.wrote item desk.heard answer, desk.store)

/-- All that was done, and the store after it. -/
structure Diary where
  events : List Event
  store : Store

def Diary.then (diary : Diary) (turn : Turn) : Diary :=
  ⟨diary.events ++ [(turn.take diary.store).1], (turn.take diary.store).2⟩

def Diary.run (start : Store) (turns : List Turn) : Diary :=
  turns.foldl Diary.then ⟨[], start⟩

/-- The nonce that an event saves for an account, if it does. -/
def Event.savedFor (account : Address) : Event → Option UInt64
  | .saved other nonce _ (.ok _) => if other = account then some nonce else none
  | _ => none

/-- The nonce that was saved last for an account. A save that failed does not count, nor does one for
another account. -/
def lastSaved (account : Address) (events : List Event) : Option UInt64 :=
  (events.filterMap (Event.savedFor account)).getLast?

/-- How a look-up ends, with what it hears on the way, by the nonce that was saved last. -/
inductive Resolved (saved : Option UInt64) (account : Address) :
    Option UInt64 → List Exchange → Except NonceError UInt64 → Prop where
  /-- A fixed nonce is the answer, and nobody is asked. -/
  | fixed (nonce : UInt64) : Resolved saved account (some nonce) [] (.ok nonce)
  /-- A failure of the store is the answer, and the network is not asked. -/
  | failed (error : StoreError) :
    Resolved saved account none [⟨.store (.get (key account)), .error error⟩] (.error (.store error))
  /-- What was saved is the answer, and the network is not asked. -/
  | known (nonce : UInt64) (record : Bytes) : saved = some nonce →
    Resolved saved account none [⟨.store (.get (key account)), .ok (some record)⟩] (.ok nonce)
  /-- If nothing was saved the network is asked once, and its answer is the answer. -/
  | network (answer : Except GatewayError UInt64) : saved = none →
    Resolved saved account none [⟨.store (.get (key account)), .ok none⟩, ⟨.network account, answer⟩]
      (answer.mapError .network)

variable {luck : Nat → Chance} {store : Store} {account : Address} {nonce : UInt64} {saved : Option UInt64}
  {item : Item}

/-- A save puts the record under the key of the account, or fails and leaves the store as it was. -/
theorem attempt_save :
    (∃ error, attempt luck (save account nonce) store =
      (.error (.store error), ⟨store, [⟨.store (.put (key account) (Record.layout.write ⟨account, nonce⟩)),
        .error error⟩]⟩)) ∨
    attempt luck (save account nonce) store =
      (.ok nonce, ⟨store.put (key account) (Record.layout.write ⟨account, nonce⟩),
        [⟨.store (.put (key account) (Record.layout.write ⟨account, nonce⟩)), .ok ()⟩]⟩) := by
  have asks : (save account nonce).run =
      .ask (.put (key account) (Record.layout.write ⟨account, nonce⟩)) fun answer => _ := rfl
  unfold attempt
  rw [asks]
  simp only [Program.runWith, Desk.serve, List.length_nil]
  cases (luck 0).failure with
  | some error => exact .inl ⟨error, rfl⟩
  | none => exact .inr rfl

/-- A look-up reads the record of the account, and only without one asks the network. -/
theorem consult_current (noted : store.get? (key account) =
      saved.map fun nonce => Record.layout.write ⟨account, nonce⟩) (fixed : Option UInt64) :
    (consult luck (current fixed account) store).2.store = store ∧
      Resolved saved account fixed (consult luck (current fixed account) store).2.heard
        (consult luck (current fixed account) store).1 := by
  cases fixed with
  | some nonce => exact ⟨rfl, .fixed nonce⟩
  | none =>
    unfold consult
    rw [run_current]
    simp only [Program.runWith, Desk.serve, List.length_nil]
    cases (luck 0).failure with
    | some error => exact ⟨rfl, .failed error⟩
    | none =>
      simp only [Store.serve, noted]
      cases saved with
      | none => exact ⟨rfl, .network _ rfl⟩
      | some nonce =>
        refine ⟨rfl, ?_⟩
        simp only [Desk.note, Option.map_some, decode_record]
        exact .known nonce _ rfl

/-- The key that a request writes or erases. -/
def writtenKey : Store.Request → Option Bytes
  | .put key _ | .erase key => some key
  | .get _ | .exists _ | .scan _ | .count _ | .flush => none

/-- Whatever it is answered, a program writes nothing under a key. -/
def Spares {α : Type} (key : Bytes) : Program Store.Access α → Prop
  | .done _ => True
  | .ask request next => writtenKey request ≠ some key ∧ ∀ answer, Spares key (next answer)

theorem get?_serve_of_spared {request : Store.Request} {key : Bytes}
    (spared : writtenKey request ≠ some key) : (store.serve request).2.get? key = store.get? key := by
  cases request with
  | put other value =>
    refine (Store.get?_put ..).trans (if_neg fun same => spared ?_)
    rw [same, writtenKey]
  | erase other =>
    refine (Store.get?_erase ..).trans (if_neg fun same => spared ?_)
    rw [same, writtenKey]
  | get | «exists» | scan | count | flush => rfl

/-- What lies under a key is not changed by a program that writes nothing there. -/
theorem get?_attempt {ε α : Type} {attempted : Attempt Store.Access ε α} {key : Bytes}
    (spares : Spares key attempted.run) :
    (attempt luck attempted store).2.store.get? key = store.get? key := by
  unfold attempt
  generalize desk : (⟨store, []⟩ : Desk) = first
  obtain rfl : first.store = store := by rw [← desk]
  clear desk
  generalize attempted.run = program at spares
  induction program generalizing first with
  | done value => rfl
  | ask request next ih =>
    obtain ⟨spared, later⟩ := spares
    simp only [Program.runWith, Desk.serve]
    cases (luck first.heard.length).failure with
    | some error => exact ih _ _ (later _)
    | none => exact (ih _ _ (later _)).trans (get?_serve_of_spared spared)

theorem spares_write (item : Item) : Spares (key account) (Items.write item).run :=
  ⟨fun same => Items.key_ne_nonce _ _ (Option.some.inj same), fun _ => trivial⟩

/-- To write an item spares all nonces. -/
theorem spares_insert (item : Item) : Spares (key account) (Items.insert item).run := by
  refine ⟨Option.some_ne_none _ ∘ Eq.symm, fun answer => ?_⟩
  rcases answer with error | _ | _
  · trivial
  · exact spares_write item
  · trivial

theorem spares_replace (item : Item) : Spares (key account) (Items.replace item).run := by
  refine ⟨Option.some_ne_none _ ∘ Eq.symm, fun answer => ?_⟩
  rcases answer with error | _ | _
  · trivial
  · trivial
  · exact spares_write item

namespace Diary

/-- The store has the nonce that was saved last for each account, and for the others none. -/
def Noted (diary : Diary) : Prop :=
  ∀ account, diary.store.get? (key account) =
    (lastSaved account diary.events).map fun nonce => Record.layout.write ⟨account, nonce⟩

variable {diary : Diary} {turn : Turn}

theorem lastSaved_concat (account : Address) (events : List Event) (event : Event) :
    lastSaved account (events ++ [event]) = (event.savedFor account).or (lastSaved account events) := by
  unfold lastSaved
  rw [List.filterMap_append, List.filterMap_cons, List.filterMap_nil]
  cases event.savedFor account <;> simp

theorem Noted.then (noted : diary.Noted) : (diary.then turn).Noted := by
  intro account
  unfold Diary.then
  rw [lastSaved_concat]
  obtain ⟨act, luck⟩ := turn
  cases act with
  | look fixed other =>
    have kept := (@consult_current luck _ _ _ (noted other) fixed).1
    simp only [Turn.take, kept]
    exact noted account
  | save other nonce =>
    simp only [Turn.take]
    rcases @attempt_save luck diary.store other nonce with ⟨error, failed⟩ | saved
    · simp only [failed]
      exact noted account
    · simp only [saved, Event.savedFor, Store.get?_put]
      by_cases own : other = account
      · subst own
        simp
      · rw [if_neg own, if_neg fun same => own (key_inj same).symm]
        exact noted account
  | insert item =>
    simp only [Turn.take, get?_attempt (spares_insert item)]
    exact noted account
  | replace item =>
    simp only [Turn.take, get?_attempt (spares_replace item)]
    exact noted account

theorem noted_run {start : Store} (unrecorded : ∀ account, start.get? (key account) = none)
    (turns : List Turn) : (run start turns).Noted := by
  induction turns using List.reverseRecOn with
  | nil => exact unrecorded
  | append_singleton turns turn ih =>
    rw [run, List.foldl_append]
    exact ih.then

end Diary

/-- A look-up in two stores that have the same record of the account hears and answers the same. -/
theorem consult_congr {other : Store} (same : other.get? (key account) = store.get? (key account))
    (luck : Nat → Chance) (fixed : Option UInt64) :
    (consult luck (current fixed account) other).1 = (consult luck (current fixed account) store).1 ∧
      (consult luck (current fixed account) other).2.heard =
        (consult luck (current fixed account) store).2.heard := by
  cases fixed with
  | some nonce => exact ⟨rfl, rfl⟩
  | none =>
    unfold consult
    rw [run_current]
    simp only [Program.runWith, Desk.serve, List.length_nil]
    cases (luck 0).failure with
    | some error => exact ⟨rfl, rfl⟩
    | none =>
      simp only [Store.serve, same]
      cases store.get? (key account) with
      | none => exact ⟨rfl, rfl⟩
      | some record => exact ⟨rfl, rfl⟩

/-- A save changes the record of its own account, and only if it does not fail. -/
theorem get?_attempt_save {other : Address}
    (apart : (∃ error, (attempt luck (save account nonce) store).1 = .error error) ∨ other ≠ account) :
    (attempt luck (save account nonce) store).2.store.get? (key other) = store.get? (key other) := by
  rcases @attempt_save luck store account nonce with ⟨error, failed⟩ | saved
  · rw [failed]
  · rw [saved] at apart ⊢
    obtain ⟨error, failed⟩ | apart := apart
    · cases failed
    · exact (Store.get?_put ..).trans (if_neg fun same => apart (key_inj same))

/-- A store that had no nonces comes, by look-ups, saves and writes of items in any order, to one in which
each account is looked up as `Resolved` says: by the fixed nonce, else by the failure of the store, else by
the nonce that was saved last, else by the network. A save that fails changes no look-up, and no save
changes a look-up for another account. -/
theorem resolved_by_last_saved (start : Store) (unrecorded : ∀ account, start.get? (key account) = none)
    (turns : List Turn) :
    let diary := Diary.run start turns
    (∀ luck fixed account,
      Resolved (lastSaved account diary.events) account fixed
        (consult luck (current fixed account) diary.store).2.heard
        (consult luck (current fixed account) diary.store).1) ∧
    ∀ luck account nonce,
      let (answer, desk) := attempt luck (save account nonce) diary.store
      ∀ luck fixed other, ((∃ error, answer = .error error) ∨ other ≠ account) →
        (consult luck (current fixed other) desk.store).1 =
            (consult luck (current fixed other) diary.store).1 ∧
          (consult luck (current fixed other) desk.store).2.heard =
            (consult luck (current fixed other) diary.store).2.heard := by
  intro diary
  refine ⟨fun luck fixed account => ?_, fun luck account nonce luck' fixed other apart => ?_⟩
  · exact (consult_current (Diary.noted_run unrecorded turns account) fixed).2
  · exact consult_congr (get?_attempt_save apart) luck' fixed

/-- Of two accounts one has saved `5`, and then failed to save `9`, and the other has saved `3`; an item was
written in between. The network is left to answer for a third. -/
theorem resolved_by_last_saved_three :
    let calm : Nat → Chance := fun _ => ⟨none, .ok 40⟩
    let full : Nat → Chance := fun _ => ⟨some (.io "disk full"), .ok 40⟩
    let item : Item := .ofRequest 0 (.fill 7) 0 (.renew ⟨"a.any", 60⟩)
    let turns : List Turn :=
      [⟨.save (.fill 1) 5, calm⟩, ⟨.insert item, calm⟩, ⟨.save (.fill 1) 9, full⟩,
        ⟨.save (.fill 2) 3, calm⟩]
    let look := fun account => consult calm (current none account) (Diary.run .empty turns).store
    (∀ account, Store.empty.get? (key account) = none) ∧
      Resolved (some 5) (.fill 1) none (look (.fill 1)).2.heard (look (.fill 1)).1 ∧
      Resolved (some 3) (.fill 2) none (look (.fill 2)).2.heard (look (.fill 2)).1 ∧
      Resolved none (.fill 3) none (look (.fill 3)).2.heard (look (.fill 3)).1 := by
  intro calm full item turns look
  have unrecorded : ∀ account, Store.empty.get? (key account) = none := fun _ => rfl
  obtain ⟨resolved, -⟩ := resolved_by_last_saved .empty unrecorded turns
  have first : lastSaved (.fill 1) (Diary.run .empty turns).events = some 5 := by decide
  have second : lastSaved (.fill 2) (Diary.run .empty turns).events = some 3 := by decide
  have third : lastSaved (.fill 3) (Diary.run .empty turns).events = none := by decide
  exact ⟨unrecorded, first ▸ resolved calm none (.fill 1), second ▸ resolved calm none (.fill 2),
    third ▸ resolved calm none (.fill 3)⟩

end Registrar.Nonce
