import Registrar.Proofs.Resume.Drain
import Registrar.Proofs.Scene.Completion
import Registrar.Proofs.Scene.ItemInHand

/-!
A fixed nonce. The gateway signs every transaction with the same nonce, over any ledger and any store whose
items lie under their own keys, whatever fails and as often as the node is restarted:

* `Scene.landings_apart`: of each account at most one transaction takes effect, and it has that nonce;
* `Reserved.kept`: a registration that was not begun before gets no further than to its commitment;
* `Scene.one_landing`: so of one administrator at most one transaction takes effect, and no such
registration is ever completed.
-/

namespace Registrar

open Item (Phase Status)
open Ledger (Profile Submission)

/-- The transactions that the ledger takes in at an event, and that take effect. -/
def Scene.landing (scene : Scene) (event : Event) : List TxHandle :=
  (accepted ((scene.step event).heard.drop scene.heard.length)).filter fun tx =>
    (scene.step event).backend.books.ledger.landed tx.hash

/-- The transactions that the ledger takes in at some events, and that take effect, in order. -/
def Scene.landings (scene : Scene) : List Event → List TxHandle
  | [] => []
  | event :: rest => scene.landing event ++ (scene.step event).landings rest

/-- What is about to be signed is signed with this nonce. -/
def Hand.Offers (nonce : UInt64) : Hand → Prop
  | .offered _ _ own => own = nonce
  | _ => True

section

variable {fixed : UInt64} {profile : Profile} {faults : Faults} {g g' : Ground} {hand hand' : Hand}
  {receipts : List Receipt}

theorem Act.offers (override : profile.nonceOverride = some fixed) (offers : hand.Offers fixed)
    (act : Act profile faults g hand receipts g' hand') : hand'.Offers fixed := by
  cases act with
  | take => trivial
  | move moved =>
    cases moved with
    | offer submits offered =>
      unfold Profile.offers Ground.offeredNonce at offered
      rw [override] at offered
      exact (Except.ok.inj offered).symm
    | _ => trivial

/-- What an act makes of the ledger: nothing, or it takes in a transaction with the fixed nonce. -/
theorem Act.ledger (offers : hand.Offers fixed) (act : Act profile faults g hand receipts g' hand') :
    (g'.ledger = g.ledger ∧ accepted receipts = []) ∨
      ∃ s, fixed = g.ledger.minedNonce profile.admin ∧
        g'.ledger = g.ledger.after profile.admin fixed s ∧
        receipts = [.ok (g.ledger.nextTx profile.admin fixed)] := by
  cases act with
  | take => exact .inl ⟨rfl, rfl⟩
  | move moved =>
    cases moved with
    | accept same =>
      cases offers
      exact .inr ⟨_, same, rfl, rfl⟩
    | _ => exact .inl ⟨rfl, rfl⟩

/-- Some acts that bring at most one receipt are the same. -/
theorem Act.chain_ledger (override : profile.nonceOverride = some fixed)
    (chain : Chain (Act profile faults) g hand receipts g' hand') (offers : hand.Offers fixed)
    (few : receipts.length ≤ 1) :
    hand'.Offers fixed ∧ ((g'.ledger = g.ledger ∧ accepted receipts = []) ∨
      ∃ s, fixed = g.ledger.minedNonce profile.admin ∧
        g'.ledger = g.ledger.after profile.admin fixed s ∧
        receipts = [.ok (g.ledger.nextTx profile.admin fixed)]) := by
  induction chain with
  | stay => exact ⟨offers, .inl ⟨rfl, rfl⟩⟩
  | @step g hand first mid hand₁ later g' hand' act _ ih =>
    rw [List.length_append] at few
    obtain ⟨last, rest⟩ := ih (act.offers override offers) (by omega)
    refine ⟨last, ?_⟩
    obtain ⟨same, silent⟩ | ⟨s, next, after, rfl⟩ := act.ledger offers
    · obtain ⟨same', silent'⟩ | ⟨s, next, after, rfl⟩ := rest
      · refine .inl ⟨same'.trans same, ?_⟩
        unfold accepted at silent silent' ⊢
        rw [List.filterMap_append, silent, silent', List.append_nil]
      · have none : first = [] := by
          rw [List.length_singleton] at few
          exact List.eq_nil_of_length_eq_zero (by omega)
        subst none
        rw [same] at next after
        rw [same]
        exact .inr ⟨s, next, after, rfl⟩
    · have none : later = [] := by
        rw [List.length_singleton] at few
        exact List.eq_nil_of_length_eq_zero (by omega)
      subst none
      obtain ⟨same', -⟩ | ⟨_, _, _, absent⟩ := rest
      · exact .inr ⟨s, next, same'.trans after, rfl⟩
      · cases absent

theorem Filing.chain_ledger {desk desk' : Option Item} (chain : Chain Filing g desk receipts g' desk') :
    g'.ledger = g.ledger ∧ accepted receipts = [] := by
  induction chain with
  | stay => exact ⟨rfl, rfl⟩
  | step filing _ ih => cases filing <;> exact ih

end

namespace Ledger

/-- The next nonce of an account is not this one. -/
def Past (ledger : Ledger) (nonce : UInt64) (account : Address) : Prop :=
  ledger.minedNonce account ≠ nonce

theorem add_one_ne (n : UInt64) : n + 1 ≠ n := by
  intro same
  have values := congrArg UInt64.toNat same
  have small := n.toNat_lt
  rw [UInt64.toNat_add] at values
  change (n.toNat + 1) % 2 ^ 64 = n.toNat at values
  omega

variable {ledger : Ledger} {account sender : Address} {nonce : UInt64} {s : Submission}

/-- An accepted transaction with a nonce brings no account back to it. -/
theorem Past.after (past : ledger.Past nonce account) (next : nonce = ledger.minedNonce sender) :
    (ledger.after sender nonce s).Past nonce account := by
  unfold Past at past ⊢
  rw [minedNonce_after, if_neg]
  · exact past
  · rintro ⟨-, rfl⟩
    exact past next.symm

/-- A transaction that takes effect takes its sender past its nonce. -/
theorem past_after (takes : ledger.effective s = true) (next : nonce = ledger.minedNonce sender) :
    (ledger.after sender nonce s).Past nonce sender := by
  unfold Past
  rw [minedNonce_after, if_pos ⟨takes, rfl⟩, ← next]
  exact add_one_ne nonce

end Ledger

namespace Scene

variable {fixed : UInt64} {faults : Faults} {allowed : Profile → Prop} {scene : Scene} {hand : Hand}
  {desk : Option Item}

/-- What an event lets land: nothing, or one transaction with the fixed nonce, which no other transaction
of its sender has after that. -/
theorem step_landing (override : ∀ profile, allowed profile → profile.nonceOverride = some fixed)
    (stands : scene.Stands faults allowed hand desk) (offers : hand.Offers fixed) {event : Event}
    (fits : event.Fits faults allowed) :
    ∃ hand' desk', (scene.step event).Stands faults allowed hand' desk' ∧ hand'.Offers fixed ∧
      (∀ account, scene.backend.books.ledger.Past fixed account →
        (scene.step event).backend.books.ledger.Past fixed account) ∧
      (scene.landing event = [] ∨ ∃ tx, scene.landing event = [tx] ∧
        tx.nonce = fixed ∧ tx.sender = scene.backend.profile.admin ∧
        ¬ scene.backend.books.ledger.Past fixed tx.sender ∧
        (scene.step event).backend.books.ledger.Past fixed tx.sender) := by
  obtain ⟨hand', desk', receipts, stands', heard, few, moved⟩ := step_moves stands fits
  refine ⟨hand', desk', stands', ?_⟩
  have landing : scene.landing event = (accepted receipts).filter fun tx =>
      (scene.step event).backend.books.ledger.landed tx.hash := by
    unfold Scene.landing
    rw [heard, List.drop_left]
  have none : (scene.step event).backend.books.ledger = scene.backend.books.ledger →
      accepted receipts = [] →
      (∀ account, scene.backend.books.ledger.Past fixed account →
        (scene.step event).backend.books.ledger.Past fixed account) ∧ scene.landing event = [] := by
    intro same silent
    rw [landing, same, silent]
    exact ⟨fun _ past => past, rfl⟩
  obtain ⟨rfl, chain⟩ | ⟨rfl, chain⟩ := moved
  · obtain ⟨offers', ⟨same, silent⟩ | ⟨s, next, after, rfl⟩⟩ :=
      Act.chain_ledger (override _ stands.profile) chain offers few
    · obtain ⟨past, nobody⟩ := none same silent
      exact ⟨offers', past, .inl nobody⟩
    · have taken : (scene.step event).backend.books.ledger =
          scene.backend.books.ledger.after scene.backend.profile.admin fixed s := after
      have own : (scene.backend.books.ledger.after scene.backend.profile.admin fixed s).landed
          (scene.backend.books.ledger.nextTx scene.backend.profile.admin fixed).hash =
            scene.backend.books.ledger.effective s := (Ledger.landed_after _).trans (if_pos rfl)
      have found : scene.landing event =
          bif scene.backend.books.ledger.effective s then
            [scene.backend.books.ledger.nextTx scene.backend.profile.admin fixed]
          else [] := by
        rw [landing, taken]
        change [scene.backend.books.ledger.nextTx scene.backend.profile.admin fixed].filter _ = _
        rw [List.filter_singleton, own]
      refine ⟨offers', fun account past => taken ▸ past.after next, ?_⟩
      cases takes : scene.backend.books.ledger.effective s with
      | true =>
        rw [takes] at found
        exact .inr ⟨_, found, rfl, rfl, fun past => past next.symm, taken ▸ Ledger.past_after takes next⟩
      | false =>
        rw [takes] at found
        exact .inl found
  · obtain ⟨same, silent⟩ := Filing.chain_ledger chain
    obtain ⟨past, nobody⟩ := none same silent
    exact ⟨offers, past, .inl nobody⟩

/-- Of each account at most one transaction lands, and only while its next nonce is the fixed one. -/
theorem landings_apart (override : ∀ profile, allowed profile → profile.nonceOverride = some fixed)
    (events : List Event) (stands : scene.Stands faults allowed hand desk) (offers : hand.Offers fixed)
    (fits : ∀ event ∈ events, event.Fits faults allowed) :
    ((scene.landings events).map (·.sender)).Nodup ∧
      ∀ tx ∈ scene.landings events, tx.nonce = fixed ∧
        ¬ scene.backend.books.ledger.Past fixed tx.sender ∧
        ∃ profile, allowed profile ∧ profile.admin = tx.sender := by
  induction events generalizing scene hand desk with
  | nil => exact ⟨.nil, fun _ there => (List.not_mem_nil there).elim⟩
  | cons event rest ih =>
    obtain ⟨hand', desk', stands', offers', past, landed⟩ :=
      step_landing override stands offers (fits event List.mem_cons_self)
    obtain ⟨apart, each⟩ := ih stands' offers' fun event there => fits event (List.mem_cons_of_mem _ there)
    have later : ∀ tx ∈ (scene.step event).landings rest, tx.nonce = fixed ∧
        ¬ scene.backend.books.ledger.Past fixed tx.sender ∧
        ∃ profile, allowed profile ∧ profile.admin = tx.sender := by
      intro tx there
      obtain ⟨nonce, free, ours⟩ := each tx there
      exact ⟨nonce, mt (past _) free, ours⟩
    unfold landings
    obtain none | ⟨tx, one, nonce, sender, free, spent⟩ := landed
    · rw [none]
      exact ⟨apart, later⟩
    · rw [one]
      refine ⟨List.nodup_cons.2 ⟨fun again => ?_, apart⟩, fun other there => ?_⟩
      · obtain ⟨other, there, same⟩ := List.mem_map.1 again
        exact (each other there).2.1 (same ▸ spent)
      · obtain rfl | there := List.mem_cons.1 there
        · exact ⟨nonce, free, _, stands.profile, sender.symm⟩
        · exact later other there

end Scene

/-- The item of an index was not begun when the store was this one, or was not there. -/
def Unbegun (first : Store) (index : Int64) : Prop :=
  ∀ item, Items.Has first item → item.index = index → item.status = .initial

/-- A registration has not come past its commitment, and not to it before a nonce was used up. -/
def Item.Meek (spent : Prop) (item : Item) : Prop :=
  item.kind = .register → item.status ≠ .registerSent ∧ item.status ≠ .completed ∧
    (item.status = .commitSent ∨ item.status = .commitDone → spent)

namespace Item

variable {spent later : Prop} {item : Item}

theorem Meek.mono (meek : item.Meek spent) (sub : spent → later) : item.Meek later := fun kind =>
  ⟨(meek kind).1, (meek kind).2.1, fun begun => sub ((meek kind).2.2 begun)⟩

theorem meek_of_initial (initial : item.status = .initial) : item.Meek spent := by
  intro _
  rw [initial]
  exact ⟨nofun, nofun, nofun⟩

/-- An item that fails has not come any further. -/
theorem meek_failed (live : item.status.isTerminal = false) : item.failed.Meek spent := by
  intro _
  have terminal : item.failed.status.isTerminal = true := Status.isTerminal_onFailure _ _
  refine ⟨fun same => ?_, Status.onFailure_ne_completed live, fun same => ?_⟩
  · rw [same] at terminal
    cases terminal
  · obtain same | same := same <;> rw [same] at terminal <;> cases terminal

/-- A registration whose commitment is confirmed comes to nothing that needs another nonce. -/
theorem Meek.confirmed (meek : item.Meek spent) (waits : item.awaited.isSome = true) :
    item.advanced.Meek spent := by
  intro kind
  obtain ⟨notSent, -, begun⟩ := meek kind
  have kind : item.kind = .register := kind
  unfold awaited at waits
  cases status : item.status <;> rw [kind, status] at waits <;> try cases waits
  · have next : item.advanced.status = .commitDone := by
      unfold advanced Status.next
      rw [kind, status]
      rfl
    rw [next]
    exact ⟨nofun, nofun, fun _ => begun (.inl status)⟩
  · exact absurd status notSent

/-- A registration sends its commitment at most, as long as no nonce was used up. -/
theorem Meek.sent {s : Submission} (meek : item.Meek spent) (submits : item.submission = some s)
    (unspent : ¬ spent) (pays : s.phase = .commit → later) (tx : TxHandle) :
    (item.record tx s.phase).advanced.Meek later := by
  intro kind
  have own : item.kind = .register := (kind_record item tx s.phase).symm.trans kind
  obtain ⟨-, -, begun⟩ := meek own
  unfold submission at submits
  cases status : item.status <;> rw [own, status] at submits <;> try cases submits
  · obtain ⟨account, -, rfl⟩ := Option.map_eq_some_iff.1 submits
    have next : (item.record tx .commit).advanced.status = .commitSent := by
      unfold advanced Status.next
      rw [kind_record, status_record, own, status]
      rfl
    refine ⟨?_, ?_, fun _ => pays rfl⟩
    · exact fun same => by cases next.symm.trans same
    · exact fun same => by cases next.symm.trans same
  · exact absurd (begun (.inr status)) unspent

end Item

namespace Items

variable {store : Store} {item other : Item}

theorem has_of_withItem (fits : item.Fits) (has : Has (store.withItem item) other) :
    other = item ∨ (other.index ≠ item.index ∧ Has store other) := by
  obtain ⟨record, there, decoded⟩ := has
  unfold Store.withItem at there
  rw [Store.get?_put] at there
  split at there
  · cases there
    exact .inl (Except.ok.inj (decoded.symm.trans (decode_encode fits)))
  · rename_i apart
    exact .inr ⟨fun same => apart (congrArg key same), record, there, decoded⟩

/-- An item under a free key leaves the others where they are. -/
theorem Has.insert (has : Has store other) (absent : store.get? (key item.index) = none) :
    Has (store.withItem item) other := by
  refine has.put fun same => ?_
  obtain ⟨record, there, -⟩ := has
  rw [same, absent] at there
  cases there

theorem has_withNonce {nonce : Nonce.Record} : Has (store.withNonce nonce) item ↔ Has store item := by
  unfold Has Store.withNonce
  simp only [Store.get?_put, if_neg (key_ne_nonce _ _)]

end Items

/-- What is known of what a worker has in hand: the store has the item, and what is written in its place is
still the same registration or renewal, and no further than it may be. -/
def Hand.Within (first : Store) (spent : Prop) (store : Store) : Hand → Prop
  | .free => True
  | .held item => Items.Has store item
  | .offered item s _ => Items.Has store item ∧ item.submission = some s
  | .found item _ | .mined item _ => Items.Has store item ∧ item.awaited.isSome = true
  | .writing item => ∃ old, Items.Has store old ∧ item.origin = old.origin ∧
      (Unbegun first item.index → item.Meek spent)

/-- As long as one nonce is reserved for an administrator: the items that were in the store at first are
still there, and registrations that were not begun then come no further than they may. -/
structure Reserved (fixed : UInt64) (admin : Address) (first : Store) (g : Ground) (hand : Hand)
    (desk : Option Item) : Prop where
  keyed : Items.Keyed g.store
  stays : ∀ item, Items.Has first item → ∃ now, Items.Has g.store now ∧ now.origin = item.origin
  meek : ∀ item, Items.Has g.store item → Unbegun first item.index →
    item.Meek (g.ledger.Past fixed admin)
  within : hand.Within first (g.ledger.Past fixed admin) g.store
  offers : hand.Offers fixed
  brings : Brings g desk

namespace Reserved

variable {fixed : UInt64} {admin : Address} {first : Store} {g g' : Ground} {hand hand' : Hand}
  {desk desk' : Option Item} {profile : Profile} {faults : Faults} {receipts : List Receipt} {item old : Item}

/-- An item is written in the place of one that the store has. -/
theorem write (reserved : Reserved fixed admin first g hand desk) (has : Items.Has g.store old)
    (origin : item.origin = old.origin)
    (meek : Unbegun first item.index → item.Meek (g.ledger.Past fixed admin)) :
    Reserved fixed admin first (g.withItem item) (.held item) desk := by
  have fits : item.Fits := (Item.fits_iff_of_origin origin).2 has.fits
  have index : item.index = old.index := Item.index_eq_of_origin origin
  have here : Items.Has (g.withItem item).store item := Items.has_withItem fits
  refine ⟨reserved.keyed.withItem fits, fun other there => ?_, fun other there young => ?_, here, trivial, ?_⟩
  · obtain ⟨now, has', same⟩ := reserved.stays other there
    by_cases own : now.index = item.index
    · obtain rfl := Items.has_inj has' has (own.trans index)
      exact ⟨item, here, origin.trans same⟩
    · exact ⟨now, has'.put fun eq => own (Items.key_inj eq), same⟩
  · obtain rfl | ⟨-, before⟩ := Items.has_of_withItem fits there
    · exact meek young
    · exact reserved.meek other before young
  · refine reserved.brings.withItem fun absent => ?_
    obtain ⟨record, there, -⟩ := has
    rw [index, there] at absent
    cases absent

/-- The nonce of a transaction is noted. -/
theorem note {tx : TxHandle} (reserved : Reserved fixed admin first g hand desk)
    (has : Items.Has g.store item) (waits : item.awaited.isSome = true) :
    Reserved fixed admin first (g.noting tx) (.writing item.advanced) desk := by
  have keyed : Items.Keyed (g.noting tx).store := reserved.keyed.put fun other begins _ => by
    rw [Items.not_keyStart_isPrefixOf_nonce] at begins
    cases begins
  refine ⟨keyed, fun other there => ?_, fun other there => reserved.meek other (Items.has_withNonce.1 there),
    ⟨item, Items.has_withNonce.2 has, rfl, fun young => (reserved.meek item has young).confirmed waits⟩,
    trivial, reserved.brings.noting tx⟩
  obtain ⟨now, has', same⟩ := reserved.stays other there
  exact ⟨now, Items.has_withNonce.2 has', same⟩

/-- A new item is put under a free key. -/
theorem insert (reserved : Reserved fixed admin first g hand (some item)) :
    Reserved fixed admin first (g.withItem item) hand none := by
  obtain ⟨new, absent⟩ := reserved.brings
  have kept : ∀ other, Items.Has g.store other → Items.Has (g.withItem item).store other :=
    fun _ has => has.insert absent
  refine ⟨reserved.keyed.withItem new.1, fun other there => ?_, fun other there young => ?_, ?_,
    reserved.offers, trivial⟩
  · obtain ⟨now, has, same⟩ := reserved.stays other there
    exact ⟨now, kept now has, same⟩
  · obtain rfl | ⟨-, before⟩ := Items.has_of_withItem new.1 there
    · exact Item.meek_of_initial new.initial.1
    · exact reserved.meek other before young
  · have within := reserved.within
    cases hand with
    | free => trivial
    | held => exact kept _ within
    | offered | found | mined => exact ⟨kept _ within.1, within.2⟩
    | writing =>
      obtain ⟨old, has, rest⟩ := within
      exact ⟨old, kept old has, rest⟩

/-- A submission is accepted with the reserved nonce, while no transaction used it up. -/
theorem accept {s : Submission} (reserved : Reserved fixed admin first g (.offered item s fixed) desk)
    (next : fixed = g.ledger.minedNonce admin) :
    Reserved fixed admin first (g.accepting admin fixed s)
      (.writing (item.record (g.ledger.nextTx admin fixed) s.phase).advanced) desk := by
  obtain ⟨has, submits⟩ := reserved.within
  have unspent : ¬ g.ledger.Past fixed admin := fun past => past next.symm
  have later : g.ledger.Past fixed admin → (g.accepting admin fixed s).ledger.Past fixed admin :=
    fun past => absurd past unspent
  have pays : s.phase = .commit → (g.accepting admin fixed s).ledger.Past fixed admin := by
    intro commits
    cases s with
    | commit => exact Ledger.past_after rfl next
    | register => cases commits
    | renew => cases commits
  refine ⟨reserved.keyed, reserved.stays, fun other there young => (reserved.meek other there young).mono later,
    ⟨item, has, Item.origin_record _ _ _, fun young => ?_⟩, trivial, reserved.brings⟩
  have index : (item.record (g.ledger.nextTx admin fixed) s.phase).index = item.index :=
    Item.index_eq_of_origin (Item.origin_record _ _ _)
  have young : Unbegun first item.index := index ▸ young
  exact (reserved.meek item has young).sent submits unspent pays _

/-- With an item that failed in hand everything else is as before. -/
theorem fail (reserved : Reserved fixed admin first g hand desk) (has : Items.Has g.store item)
    (live : item.status.isTerminal = false) : Reserved fixed admin first g (.writing item.failed) desk :=
  ⟨reserved.keyed, reserved.stays, reserved.meek, ⟨item, has, rfl, fun _ => Item.meek_failed live⟩, trivial,
    reserved.brings⟩

/-- With something else in hand everything else is as before. -/
theorem hold (reserved : Reserved fixed admin first g hand desk)
    (within : hand'.Within first (g.ledger.Past fixed admin) g.store) (offers : hand'.Offers fixed) :
    Reserved fixed admin first g hand' desk :=
  ⟨reserved.keyed, reserved.stays, reserved.meek, within, offers, reserved.brings⟩

theorem move (reserved : Reserved fixed admin first g hand desk)
    (override : profile.nonceOverride = some fixed) (ours : profile.admin = admin)
    (moved : Move profile faults g hand receipts g' hand') :
    Reserved fixed admin first g' hand' desk := by
  have offers := Act.offers override reserved.offers (.move moved)
  have within := reserved.within
  subst ours
  cases moved with
  | offer submits => exact reserved.hold ⟨within, submits⟩ offers
  | accept next =>
    cases reserved.offers
    exact reserved.accept next
  | reject => exact reserved.fail within.1 (live_of_submission within.2)
  | find waits => exact reserved.hold ⟨within, by rw [waits]; rfl⟩ offers
  | mined => exact reserved.hold within offers
  | lose =>
    obtain ⟨phase, waits⟩ := Option.isSome_iff_exists.1 within.2
    exact reserved.fail within.1 (live_of_awaited waits)
  | note => exact reserved.note within.1 within.2
  | giveUp live => exact reserved.fail within live
  | write date =>
    obtain ⟨old, has, origin, meek⟩ := within
    exact reserved.write has origin meek
  | drop => exact reserved.hold trivial trivial

theorem kept (fixed : UInt64) (admin : Address) (first : Store) (faults : Faults) :
    Scene.Kept faults (fun profile => profile.nonceOverride = some fixed ∧ profile.admin = admin)
      fun g hand desk _ => Reserved fixed admin first g hand desk where
  act := by
    rintro profile g hand desk _ receipts g' hand' ⟨override, ours⟩ reserved act
    cases act with
    | take there begins decoded =>
      have same := reserved.keyed _ _ _ there begins decoded
      exact reserved.hold ⟨_, same ▸ there, decoded⟩ trivial
    | move moved => exact reserved.move override ours moved
  file := by
    intro g hand desk _ receipts g' desk' reserved filing
    have clear : ∀ {desk}, Brings g desk → Reserved fixed admin first g hand desk := fun brings =>
      ⟨reserved.keyed, reserved.stays, reserved.meek, reserved.within, reserved.offers, brings⟩
    cases filing with
    | see new absent =>
      refine clear ⟨new, ?_⟩
      unfold Store.contains at absent
      exact Option.not_isSome_iff_eq_none.1 fun there => by rw [there] at absent; cases absent
    | insert => exact reserved.insert
    | drop => exact clear trivial

/-- A registration that comes to its end was begun before. -/
theorem begun (reserved : Reserved fixed admin first g hand desk) (has : Items.Has g.store item)
    (register : item.kind = .register) (completed : item.status = .completed) :
    ∃ before, Items.Has first before ∧ before.origin = item.origin ∧ before.status ≠ .initial := by
  by_cases young : Unbegun first item.index
  · exact absurd completed (reserved.meek item has young register).2.1
  · unfold Unbegun at young
    push Not at young
    obtain ⟨before, has', index, started⟩ := young
    obtain ⟨now, here, origin⟩ := reserved.stays before has'
    obtain rfl := Items.has_inj here has ((Item.index_eq_of_origin origin).trans index)
    exact ⟨before, has', origin.symm, started⟩

/-- A registration that was not begun at first is there and has not come to its end. -/
theorem waits (reserved : Reserved fixed admin first g hand desk) (has : Items.Has first old)
    (register : old.kind = .register) (initial : old.status = .initial) :
    ∃ now, Items.Has g.store now ∧ now.origin = old.origin ∧ now.status ≠ .completed := by
  obtain ⟨now, here, origin⟩ := reserved.stays old has
  refine ⟨now, here, origin, fun completed => ?_⟩
  have kind : now.kind = .register := (congrArg Item.kind origin).trans register
  obtain ⟨before, has', same, started⟩ := reserved.begun here kind completed
  obtain rfl := Items.has_inj has' has (Item.index_eq_of_origin (same.trans origin))
  exact started initial

end Reserved

/-- With a nonce that is fixed for one administrator, at most one transaction takes effect, and no
registration is completed that was not begun before. -/
theorem Scene.one_landing (backend : Backend) (fixed : UInt64) (events : List Event)
    (within : backend.Within .all) (keyed : Items.Keyed backend.books.store.store)
    (override : backend.profile.nonceOverride = some fixed)
    (fits : ∀ event ∈ events, event.Fits .all fun profile =>
      profile.nonceOverride = some fixed ∧ profile.admin = backend.profile.admin) :
    let start : Scene := ⟨backend, none, none, []⟩
    let first := backend.books.store.store
    let last := (start.run events).backend.books.store.store
    (start.landings events).length ≤ 1 ∧
      (∀ tx ∈ start.landings events, tx.nonce = fixed ∧ tx.sender = backend.profile.admin) ∧
      (∀ item, Items.Has first item → item.kind = .register → item.status = .initial →
        ∃ now, Items.Has last now ∧ now.origin = item.origin ∧ now.status ≠ .completed) ∧
      ∀ item, Items.Has last item → item.kind = .register → item.status = .completed →
        ∃ before, Items.Has first before ∧ before.origin = item.origin ∧ before.status ≠ .initial := by
  intro start first last
  have stands : start.Stands .all (fun profile => profile.nonceOverride = some fixed ∧
      profile.admin = backend.profile.admin) .free none :=
    ⟨within, ⟨override, rfl⟩, nofun, nofun⟩
  have reserved : Reserved fixed backend.profile.admin first backend.ground .free none :=
    ⟨keyed, fun item there => ⟨item, there, rfl⟩,
      fun item there young => Item.meek_of_initial (young item there rfl), trivial, trivial, trivial⟩
  obtain ⟨apart, each⟩ := Scene.landings_apart (fun _ ours => ours.1) events stands trivial fits
  have ours : ∀ tx ∈ start.landings events, tx.nonce = fixed ∧ tx.sender = backend.profile.admin := by
    intro tx there
    obtain ⟨nonce, -, profile, ⟨-, same⟩, sender⟩ := each tx there
    exact ⟨nonce, sender.symm.trans same⟩
  have one : (start.landings events).map (·.sender) =
      .replicate (start.landings events).length backend.profile.admin := by
    rw [List.map_congr_left fun tx there => (ours tx there).2, List.map_const']
  obtain ⟨hand, desk, -, held⟩ := Scene.run_keeps (Reserved.kept fixed backend.profile.admin first .all)
    events stands reserved fits
  refine ⟨List.nodup_replicate.1 (one ▸ apart), ours, fun item => held.waits, fun item => held.begun⟩

namespace Contested

def item (index : Int64) (fullName : String) : Item :=
  .ofRequest index (.fill 1) 5 (.register ⟨fullName, "x", "0x10d5B0e279E5E4c1d1Df5F57DFB7E84813920a51", ""⟩)

/-- Two new registrations, and a ledger without transactions. -/
def backend : Backend :=
  { Backend.fresh { Profile.sample with nonceOverride := some 0 } ⟨7, 1⟩ 0 with
    books := ⟨.fresh 0, ⟨(Store.empty.withItem (item 0 "a.any")).withItem (item 1 "b.any"), []⟩⟩ }

def events : List Event := .scan :: .replicate 33 .turn

theorem within : backend.Within .all where
  native := rfl
  store _ := trivial
  gateway _ there := nomatch there

theorem keyed : Items.Keyed backend.books.store.store :=
  (Items.keyed_empty.withItem (by decide)).withItem (by decide)

theorem fits (allowed : Profile → Prop) : ∀ event ∈ events, event.Fits .all allowed := by
  intro event there
  simp only [events, List.mem_cons, List.mem_replicate] at there
  obtain rfl | ⟨-, rfl⟩ := there <;> trivial

set_option maxRecDepth 8000 in
theorem ends :
    let start : Scene := ⟨backend, none, none, []⟩
    let last := (start.run events).backend.books.store.store
    (start.landings events).map (·.nonce) = [0] ∧
      (Items.bucket last .registerError).map (·.fullName) = ["a.any"] ∧
      (Items.bucket last .commitError).map (·.fullName) = ["b.any"] := by
  decide +kernel

end Contested

/-- The first of two registrations gets its commitment through, and that is all. -/
theorem one_landing_contested :
    let start : Scene := ⟨Contested.backend, none, none, []⟩
    let last := (start.run Contested.events).backend.books.store.store
    (start.landings Contested.events).map (·.nonce) = [0] ∧
      (start.landings Contested.events).length ≤ 1 ∧
      (Items.bucket last .registerError).map (·.fullName) = ["a.any"] ∧
      ∃ now, Items.Has last now ∧ now.origin = Contested.item 1 "b.any" ∧ now.status ≠ .completed := by
  obtain ⟨landed, first, -⟩ := Contested.ends
  obtain ⟨few, -, waits, -⟩ := Scene.one_landing Contested.backend 0 Contested.events Contested.within
    Contested.keyed rfl (Contested.fits _)
  exact ⟨landed, few, first, waits (Contested.item 1 "b.any") (Items.has_withItem (by decide)) rfl rfl⟩

end Registrar
