import Registrar.Proofs.Item.Course
import Registrar.Queue

/-!
Adding requests. The item of a request is put under an index that was seen to be free, and nothing
else is written. A store that is filled by requests alone holds no item that was begun.
-/

namespace Registrar

open Item (Status)

namespace ItemRequest

def texts : ItemRequest → List String
  | .register request =>
    [request.fullName, request.ownerAnyAddress, request.ownerEthAddress, request.spaceId]
  | .renew request => [request.fullName]

/-- Each text of the request is shorter than a length in bytes can say. -/
def Fits (request : ItemRequest) : Prop := ∀ s ∈ request.texts, (Text.bytes s).length < 2 ^ 64

instance (request : ItemRequest) : Decidable request.Fits :=
  inferInstanceAs (Decidable (∀ s ∈ request.texts, (Text.bytes s).length < 2 ^ 64))

theorem Fits.item {request : ItemRequest} (fits : request.Fits) (index : Int64) (secret : Secret)
    (now : UInt64) : (Item.ofRequest index secret now request).Fits := by
  intro s there
  cases request with
  | register request => exact fits s there
  | renew request =>
    simp only [Item.ofRequest, List.mem_cons, List.not_mem_nil, or_false] at there
    rcases there with rfl | rfl | rfl | rfl
    · exact fits _ List.mem_cons_self
    · decide
    · decide
    · decide

end ItemRequest

/-- An item as a request makes it. -/
def Item.New (item : Item) : Prop :=
  item.Fits ∧ ∃ secret now request, item = Item.ofRequest item.index secret now request

/-- What may happen to an item that is about to be put under an index seen to be free. -/
inductive Filing : Moves (Option Item) where
  | see {g item} :
      item.New → g.store.contains (Items.key item.index) = false →
      Filing g none [] g (some item)
  | insert {g item} : Filing g (some item) [] (g.withItem item) none
  | drop {g desk} : Filing g desk [] g none

theorem index_ofRequest (index : Int64) (secret : Secret) (now : UInt64) (request : ItemRequest) :
    (Item.ofRequest index secret now request).index = index := by
  cases request <;> rfl

theorem Item.New.initial {item : Item} (new : item.New) :
    item.status = .initial ∧ item.origin = item := by
  obtain ⟨_, secret, now, request, same⟩ := new
  rw [same]
  exact ⟨by cases request <;> rfl, Item.origin_ofRequest _ _ _ _⟩

/-- Nothing was done for the item yet. -/
def Item.Fresh (item : Item) : Prop := item.status = .initial ∧ ∀ phase, item.sent phase = .nothing

theorem Item.New.fresh {item : Item} (new : item.New) : item.Fresh := by
  refine ⟨new.initial.1, fun phase => ?_⟩
  rw [← new.initial.2]
  cases phase <;> rfl

namespace Queue

variable {s : Surroundings}

/-- Adding a request, request by request. -/
theorem run_create (request : ItemRequest) (secret : Secret) :
    (create request secret).run = .ask (.store (.count Items.keyStart)) fun
      | .error error => .done (.error (.store error))
      | .ok count => .ask .now fun (now : UInt64) =>
        .ask (.store (.exists (Items.key (indexAfter count)))) fun
          | .error error => .done (.error (.store error))
          | .ok true => .done (.error (.duplicateIndex (indexAfter count)))
          | .ok false =>
            .ask (.store (.put (Items.key (indexAfter count))
              (Items.encode (Item.ofRequest (indexAfter count) secret now request)))) fun
                | .error error => .done (.error (.store error))
                | .ok () => .done (.ok (indexAfter count)) := by
  refine congrArg (Program.ask _) (funext fun answer => ?_)
  rcases answer with error | count
  · rfl
  · refine congrArg (Program.ask _) (funext fun now => ?_)
    cases request <;> refine congrArg (Program.ask _) (funext fun answer => ?_) <;>
      rcases answer with error | _ | _
    all_goals first | rfl | refine congrArg (Program.ask _) (funext fun answer => ?_)
    all_goals rcases answer with error | _ <;> rfl

/-- Adding a request puts its item under a free index, or nothing. -/
theorem follows_create {request : ItemRequest} (fits : request.Fits) (secret : Secret) :
    (create request secret).run.Follows s Filing (fun _ desk => desk = none) none := by
  rw [run_create]
  rintro g answer g' (⟨rfl, rfl⟩ | ⟨faulty, ⟨error, rfl⟩, rfl⟩)
  · refine ⟨_, .stay, ?_⟩
    generalize (g.store.serve (.count Items.keyStart)).1 = count
    rintro g now g' rfl
    refine ⟨_, .stay, ?_⟩
    rintro g answer g' (⟨rfl, rfl⟩ | ⟨faulty, ⟨error, rfl⟩, rfl⟩)
    · cases taken : g.store.contains (Items.key (indexAfter count)) with
      | true =>
        refine ⟨none, .stay, ?_⟩
        simp only [Store.serve, taken]
        rfl
      | false =>
        let item := Item.ofRequest (indexAfter count) secret now request
        have index : item.index = indexAfter count := index_ofRequest _ _ _ _
        have new : item.New := ⟨fits.item _ _ _, secret, now, request, by rw [index]⟩
        refine ⟨some item, .one (.see new (by rw [index]; exact taken)), ?_⟩
        simp only [Store.serve, taken]
        rintro g answer g' (⟨rfl, rfl⟩ | ⟨faulty, ⟨error, rfl⟩, rfl⟩)
        · refine ⟨none, ?_, rfl⟩
          have inserted : Chain Filing g (some item) [] (g.withItem item) none := .one .insert
          unfold Ground.withItem Store.withItem at inserted
          rw [index] at inserted
          exact inserted
        · exact ⟨none, .one .drop, rfl⟩
    · exact ⟨_, .stay, rfl⟩
  · exact ⟨_, .stay, rfl⟩

end Queue

/-- What adding a request changes: at most, there is another item that was not begun. -/
structure Filed (g g' : Ground) : Prop where
  ledger : g'.ledger = g.ledger
  nonce : ∀ account, g'.store.get? (Nonce.key account) = g.store.get? (Nonce.key account)
  tidy : Items.Tidy g.store → Items.Tidy g'.store
  items : ∀ item, Items.Holds g'.store item → Items.Holds g.store item ∨ item.New

theorem Filed.refl (g : Ground) : Filed g g := ⟨rfl, fun _ => rfl, id, fun _ => .inl⟩

theorem Filed.insert {g g' : Ground} {item : Item} (filed : Filed g g') (new : item.New) :
    Filed g (g'.withItem item) where
  ledger := filed.ledger
  nonce account := by
    unfold Ground.withItem Store.withItem
    rw [Store.get?_put, if_neg (Items.key_ne_nonce _ _).symm]
    exact filed.nonce account
  tidy before := Items.tidy_withItem (filed.tidy before) new.1
  items other held := by
    rcases (Items.holds_withItem new.1).1 held with rfl | ⟨_, held⟩
    · exact .inr new
    · exact filed.items other held

theorem Filed.nextNonce {g g' : Ground} (filed : Filed g g') (account : Address) :
    g'.nextNonce account = g.nextNonce account := by
  unfold Ground.nextNonce
  rw [filed.nonce, filed.ledger]

/-- A request on its way into the store, from any ground on. -/
theorem filed_of_chain {first g g' : Ground} {desk desk' : Option Item} {receipts : List Receipt}
    (chain : Chain Filing g desk receipts g' desk') (filed : Filed first g)
    (new : ∀ item, desk = some item → item.New) : Filed first g' ∧ receipts = [] := by
  induction chain with
  | stay => exact ⟨filed, rfl⟩
  | step moved _ ih =>
    cases moved with
    | see new' _ =>
      refine ih filed fun item same => ?_
      cases same
      exact new'
    | insert =>
      refine ih (filed.insert (new _ rfl)) fun item absent => ?_
      cases absent
    | drop =>
      refine ih filed fun item absent => ?_
      cases absent

/-- Adding a request sends nothing and puts at most its item into the store. -/
theorem create_filed {faults : Faults} {backend : Backend} (within : backend.Within faults)
    {request : ItemRequest} (fits : request.Fits) (secret : Secret) :
    let performed := backend.perform (Queue.create request secret).run
    performed.backend.Within faults ∧ performed.backend.profile = backend.profile ∧
      (performed.value = none → faults.breaks) ∧
      Filed backend.ground performed.backend.ground ∧ performed.receipts = [] := by
  obtain ⟨kept, same, broke, last, chain, _⟩ := Backend.perform_follows within
    (Queue.follows_create fits secret)
  refine ⟨kept, same, broke, filed_of_chain chain (.refl _) fun item absent => ?_⟩
  cases absent

end Registrar
