import Registrar.Proofs.Hall.PerformedCalls
import Registrar.Proofs.Item.Answer

/-!
Failures of the store behind a backend, with the gateway of the ledger and no fault of its own. A request
that the work on an item makes of the store is one thing, a look-up that the gateway makes for it another:

* `Backend.heard_perform`: what is performed is heard of a store that may fail;
* `Backend.refused_of_lookupFailures`: where a look-up of a nonce fails, the gateway refuses the options;
* `Backend.storage_failure`: a failure of the work's own requests leaves the item to a resume scan, and one
  of a look-up alone fails the item for good.
-/

namespace Registrar

open Item (Status)

/-- Only the store may fail. -/
def Faults.ofStore : Faults := ⟨True, False, False⟩

/-- The first failure of the store in a look-up of a nonce. -/
def Ledger.Books.failureIn {α : Type} : Program Nonce.Access α → Books → Option StoreError
  | .done _, _ => none
  | .ask (.store request) next, books =>
    match books.store.serve request with
    | (.error error, _) => some error
    | (.ok value, store) => failureIn (next (.ok value)) { books with store }
  | .ask (.network account) next, books =>
    failureIn (next (.ok (books.ledger.minedNonce account))) books

/-- A look-up that the store fails ends with that failure. -/
theorem Ledger.Books.currentNonce_failed {books : Books} {fixed : Option UInt64} {account : Address}
    {error : StoreError} (failed : books.failureIn (Nonce.current fixed account).run = some error) :
    (books.currentNonce fixed account).1 = .error (.store error) := by
  cases fixed with
  | some nonce => cases failed
  | none =>
    unfold currentNonce
    rw [Nonce.run_current] at failed ⊢
    simp only [failureIn, Program.runWith, serveNonce] at failed ⊢
    cases served : books.store.serve (.get (Nonce.key account)) with
    | mk answer store =>
      rw [served] at failed
      obtain error | _ | record := answer
      · cases failed
        rfl
      · cases failed
      · cases failed

namespace Backend

variable {α : Type}

/-- The failure of the store in what the gateway looks up to answer a request. -/
def lookupFailure (backend : Backend) : Work.Request → Option StoreError
  | .gateway (.authOptions _) =>
    backend.books.failureIn (Nonce.current backend.profile.nonceOverride backend.profile.admin).run
  | _ => none

/-- The failures of the store in what the gateway looks up while a program is performed. -/
def lookupFailures : Program Work α → Backend → List StoreError
  | .done _, _ => []
  | .ask request next, backend =>
    (backend.lookupFailure request).toList ++
      match backend.serve request with
      | (none, _) => []
      | (some reply, after) => lookupFailures (next reply.answer) after

/-- A failure of the store while the item is worked on is passed on, and the item stays one that a resume
scan takes up. -/
def Spares (backend : Backend) (item : Item) : Prop :=
  let work := (Processor.process false item).run
  ¬ Unbroken (backend.perform work).heard ∨ backend.lookupFailures work ≠ [] →
    ∃ error final, (backend.perform work).value = some (.error error) ∧
      error.isInfrastructure = true ∧ Items.Has (backend.perform work).backend.books.store.store final ∧
      final.index = item.index ∧ final.status ∈ Status.resumeBuckets

variable {backend : Backend}

theorem Within.gatewayRules_eq (within : backend.Within .ofStore) : backend.gatewayRules = [] := by
  apply List.eq_nil_iff_forall_not_mem.2
  intro rule there
  have allowed := within.gateway rule there
  cases effect : rule.effect with
  | fail | breakOff =>
    rw [effect] at allowed
    exact allowed
  | mined success =>
    rw [effect] at allowed
    exact allowed.1

/-- What is performed is heard of a store that may fail. -/
theorem heard_perform (program : Program Work α) (within : backend.Within .ofStore) :
    ∃ value, (backend.perform program).value = some value ∧
      program.Hears (backend.perform program).heard value ∧
      Honest backend.books.store.store (backend.perform program).heard ∧
      (backend.perform program).backend.books.store.store =
        backend.books.store.store.after (backend.perform program).heard := by
  induction program generalizing backend with
  | done value => exact ⟨value, rfl, .done, trivial, rfl⟩
  | ask request next ih =>
    obtain ⟨fortune, reply, -, served, kept, same⟩ := serve_fortune within id request
    have split : backend.serve request = (some reply, (backend.serve request).2) := by rw [← served]
    obtain ⟨value, ends, hears, honest, after⟩ := ih reply.answer kept
    have told : fortune.exchange backend.books.store.store request = ⟨request, reply.answer⟩ := by
      unfold Fortune.exchange
      rw [same]
    have on : Exchange.on ⟨request, reply.answer⟩ backend.books.store.store
        = (backend.serve request).2.books.store.store :=
      (congrArg (Exchange.on · _) told.symm).trans
        ((fortune.exchange_on _ request).trans (congrArg Prod.snd same))
    have faithful := Fate.honest_exchange fortune backend.books.store.store request
    rw [told] at faithful
    rw [perform_answered split]
    refine ⟨value, ends, .ask hears, ⟨faithful, ?_⟩, ?_⟩
    · rw [on]
      exact honest
    · exact after.trans (congrArg (Store.after · _) on.symm)

/-- Where a look-up of a nonce fails, the gateway refuses the options. -/
theorem refused_of_lookupFailure (within : backend.Within .ofStore) {request : Work.Request}
    {reply : Gateway.Reply request.Answer} {error : StoreError}
    (served : (backend.serve request).1 = some reply)
    (failed : backend.lookupFailure request = some error) :
    Exchange.refused ⟨request, reply.answer⟩ = true := by
  cases request with
  | now | store => cases failed
  | gateway request =>
    cases request with
    | authOptions connection =>
      have refused := Ledger.Books.currentNonce_failed failed
      simp only [serve, serveGateway, within.gatewayRules_eq, Fault.fire_nil, serveUnder, serveChain,
        Ledger.Profile.serve] at served
      cases found : backend.books.currentNonce backend.profile.nonceOverride backend.profile.admin with
      | mk answer after =>
        rw [found] at refused served
        cases refused
        cases served
        rfl
    | _ => cases failed

theorem refused_of_lookupFailures (program : Program Work α) (within : backend.Within .ofStore)
    (failed : backend.lookupFailures program ≠ []) :
    ∃ exchange ∈ (backend.perform program).heard, exchange.refused = true := by
  induction program generalizing backend with
  | done value => exact absurd rfl failed
  | ask request next ih =>
    obtain ⟨fortune, reply, -, served, kept, -⟩ := serve_fortune within id request
    have split : backend.serve request = (some reply, (backend.serve request).2) := by rw [← served]
    rw [perform_answered split]
    cases now : backend.lookupFailure request with
    | some error =>
      exact ⟨_, List.mem_cons_self, refused_of_lookupFailure within served now⟩
    | none =>
      unfold lookupFailures at failed
      rw [now, split] at failed
      obtain ⟨exchange, there, refused⟩ := ih reply.answer kept failed
      exact ⟨exchange, List.mem_cons_of_mem _ there, refused⟩

/-- On the gateway of the ledger a failure of the store is passed on, and spares the item, unless it is
the gateway's own look-up of a nonce that fails and nothing else: then the step fails, and the item ends
with a status of failure, although all that was wrong was the store. -/
theorem storage_failure (item : Item) (backend : Backend) (within : backend.Within .ofStore)
    (has : Items.Has backend.books.store.store item) :
    let work := (Processor.process false item).run
    (backend.Spares item ↔
      backend.lookupFailures work = [] ∨ ¬ Unbroken (backend.perform work).heard) ∧
    (backend.lookupFailures work ≠ [] → Unbroken (backend.perform work).heard →
      ∃ status final, (backend.perform work).value = some (.ok status) ∧ status.progress = .failed ∧
        Items.Has (backend.perform work).backend.books.store.store final ∧
        final.index = item.index ∧ final.status = status) := by
  intro work
  obtain ⟨record, stored, decoded⟩ := has
  obtain ⟨answer, ends, hears, honest, after⟩ := heard_perform work within
  obtain ⟨final, there, decoded', own, tells, rests, fails⟩ :=
    Processor.heard_process stored decoded hears honest
  rw [← after] at there
  have has' : Items.Has (backend.perform work).backend.books.store.store final :=
    ⟨_, by rw [own]; exact there, decoded'⟩
  have passed : ¬ Unbroken (backend.perform work).heard → backend.Spares item := by
    intro broken _
    cases answer with
    | ok status => exact absurd tells.1 broken
    | error error =>
      obtain ⟨broken, live⟩ := fails error rfl
      exact ⟨error, final, ends, broken.books, has', own, Status.mem_resumeBuckets.2 live⟩
  have failed : backend.lookupFailures work ≠ [] → Unbroken (backend.perform work).heard →
      ∃ status, answer = .ok status ∧ status.progress = .failed := by
    intro failed kept
    have refused := refused_of_lookupFailures work within failed
    cases answer with
    | error error =>
      obtain ⟨front, last, fault, split, _, broke, _⟩ := (fails error rfl).1
      have sound := kept last (by rw [split]; exact List.mem_append_right _ (List.mem_singleton.2 rfl))
      rw [broke] at sound
      cases sound
    | ok status =>
      have terminal := (rests status rfl).1
      have other := tells.2 refused
      refine ⟨status, rfl, ?_⟩
      cases status <;> first | rfl | exact absurd rfl other | cases terminal
  refine ⟨⟨fun spares => ?_, fun cause => ?_⟩, fun looked kept => ?_⟩
  · by_cases looked : backend.lookupFailures work = []
    · exact .inl looked
    · refine .inr fun kept => ?_
      obtain ⟨error, _, answered, _⟩ := spares (.inr looked)
      obtain ⟨status, rfl, _⟩ := failed looked kept
      cases ends.symm.trans answered
  · intro struck
    have broken : ¬ Unbroken (backend.perform work).heard := by
      intro kept
      obtain none | broken := cause
      · exact struck.elim (· kept) (· none)
      · exact broken kept
    exact passed broken struck
  · obtain ⟨status, rfl, ended⟩ := failed looked kept
    exact ⟨status, final, ends, ended, has', own, (rests status rfl).2⟩

/-- A store with one item, before which a rule stands. -/
def striking (item : Item) (scope : Store.Scope) : Backend :=
  { fresh .sample ⟨5, 1⟩ 0 with
    books := ⟨.fresh 0, ⟨Store.empty.withItem item, [⟨scope, 0, some 1, .io "injected"⟩]⟩⟩ }

theorem within_striking (item : Item) (scope : Store.Scope) : (striking item scope).Within .ofStore where
  native := rfl
  store _ := trivial
  gateway _ there := nomatch there

/-- A registration whose commitment was mined is spared when that cannot be noted. -/
theorem storage_failure_unnoted :
    let owner : Address := .fill 2
    let item : Item := .ofRequest 3 (.fill 1) 5 (.register ⟨"a.any", "", owner.render, ""⟩)
    let backend := striking item ⟨.put, Text.Utf8.encode Nonce.keyStart⟩
    backend.Spares item ∧ ¬ Unbroken (backend.perform (Processor.process false item).run).heard := by
  intro owner item backend
  have broken : ¬ Unbroken (backend.perform (Processor.process false item).run).heard := by decide +kernel
  have has : Items.Has backend.books.store.store item := Items.has_withItem (by decide)
  exact ⟨(storage_failure item backend (within_striking item _) has).1.2 (.inr broken), broken⟩

/-- A new item is not spared when the gateway's look-up of a nonce fails. -/
theorem not_spares :
    ¬ ∀ (backend : Backend) (request : ItemRequest) (index : Int64) (secret : Secret) (now : UInt64),
      backend.Within .ofStore →
      Items.Has backend.books.store.store (.ofRequest index secret now request) →
      backend.Spares (.ofRequest index secret now request) := by
  intro spares
  let request : ItemRequest := .renew ⟨"a.any", 600⟩
  let backend := striking (.ofRequest 3 (.fill 1) 5 request) ⟨.get, Text.Utf8.encode Nonce.keyStart⟩
  have struck : backend.lookupFailures (Processor.process false (.ofRequest 3 (.fill 1) 5 request)).run
      = [.io "injected"] := by decide +kernel
  have ended : (backend.perform (Processor.process false (.ofRequest 3 (.fill 1) 5 request)).run).value
      = some (.ok .renewError) := by decide +kernel
  obtain ⟨error, _, answered, _⟩ := spares backend request 3 (.fill 1) 5 (within_striking _ _)
    (Items.has_withItem (by decide)) (.inr (by rw [struck]; exact List.cons_ne_nil _ _))
  cases ended.symm.trans answered

end Backend

end Registrar
