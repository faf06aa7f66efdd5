import Registrar.Proofs.Nonce.InStep
import Registrar.Proofs.Queue.AddedItems
import Registrar.Proofs.Queue.WorkedItems

/-!
The end of every item where nothing fails. A tally goes through the items in the order in which they
are worked on and notes, without chain or store, how each of them ends and which names are held by
whom. `processed_as_tallied` says that a queue whose store was filled by requests, on a ledger in step,
comes to exactly that, whether a worker or a resume scan does the work.
-/

namespace Registrar

open Item (Status)
open Ledger (Submission Profile)

/-- What a name stands for, whenever that was last changed. -/
structure Holding where
  owner : Address
  ownerAnyAddress : String
  spaceId : String
  renewedSeconds : UInt64

def NameRecord.holding (record : NameRecord) : Holding :=
  ⟨record.owner, record.ownerAnyAddress, record.spaceId, record.renewedSeconds⟩

/-- The holding of a name on the ledger. -/
def Ledger.holding? (ledger : Ledger) (name : String) : Option Holding :=
  (ledger.name? name).map (·.holding)

/-- How the items that were worked on have ended, the names that are held, and how many transactions
were sent. -/
structure Tally where
  ended : Int64 → Option Status
  names : String → Option Holding
  sent : Nat

namespace Tally

/-- Nothing worked on yet. -/
def start (ledger : Ledger) : Tally := ⟨fun _ => none, ledger.holding?, 0⟩

/-- The tally with the end of an item that has sent some transactions. -/
def close (t : Tally) (item : Item) (status : Status) (sent : Nat) : Tally :=
  { t with
    ended := fun index => if index = item.index then some status else t.ended index
    sent := t.sent + sent }

/-- The tally with another holding of a name. -/
def hold (t : Tally) (fullName : String) (holding : Holding) : Tally :=
  { t with names := fun name => if name = fullName then some holding else t.names name }

/-- Work on an item. One that has ended stays as it is. -/
def count (t : Tally) (item : Item) : Tally :=
  if (t.ended item.index).isSome then t
  else match item.kind, (Fixed.parse item.ownerEthAddress).toOption, t.names item.fullName with
    | .register, none, _ => t.close item .commitError 0
    | .register, some _, some _ => t.close item .error 2
    | .register, some owner, none =>
      (t.close item .completed 2).hold item.fullName ⟨owner, item.ownerAnyAddress, item.spaceId, 0⟩
    | .renew, _, none => t.close item .renewError 1
    | .renew, _, some holding =>
      (t.close item .completed 1).hold item.fullName
        { holding with renewedSeconds := saturatingAdd holding.renewedSeconds item.renewDuration }

end Tally

/-- What the store and the ledger show is what a tally says about the items that were there at
first. -/
structure Tallied (t : Tally) (start g : Ground) : Prop where
  tidy : Items.Tidy g.store
  names : g.ledger.holding? = t.names
  known : ∀ item, Items.Holds g.store item →
    ∃ first, Items.Holds start.store first ∧ first.index = item.index
  waiting : ∀ item, Items.Holds start.store item → t.ended item.index = none →
    Items.Holds g.store item
  ended : ∀ item status, Items.Holds start.store item → t.ended item.index = some status →
    status.isTerminal = true ∧
      ∃ final, Items.Holds g.store final ∧ final.origin = item.origin ∧ final.status = status

section

variable {t : Tally} {ledger : Ledger} {item : Item} {account : Address}

/-- The tally of an item that was not begun is its verdict. -/
theorem count_ended (names : ledger.holding? = t.names) (fresh : t.ended item.index = none)
    (index : Int64) :
    (t.count item).ended index =
      if index = item.index then some (item.verdict ledger) else t.ended index := by
  have named : t.names item.fullName = (ledger.name? item.fullName).map (·.holding) := by
    rw [← names]
    rfl
  unfold Tally.count Item.verdict
  rw [fresh, named, ← Processor.toOption_owner]
  cases item.kind <;> cases Processor.owner item <;> cases ledger.name? item.fullName <;> rfl

theorem count_sent (fresh : t.ended item.index = none) :
    (t.count item).sent = t.sent + item.sends.length := by
  unfold Tally.count Item.sends
  rw [fresh, ← Processor.toOption_owner]
  cases item.kind <;> cases Processor.owner item <;> cases t.names item.fullName <;> rfl

theorem holding?_send_commit (commitment : Commitment) :
    (ledger.send account (.commit commitment)).holding? = ledger.holding? := rfl

theorem holding?_send_register (r : Registration) (name : String) :
    (ledger.send account (.register r)).holding? name =
      if ledger.canRegister r = true ∧ name = r.fullName then
        some ⟨r.account, r.ownerAnyAddress, r.spaceId, 0⟩
      else ledger.holding? name := by
  unfold Ledger.holding? Ledger.send
  rw [Ledger.name?_after_register]
  split <;> rfl

theorem holding?_send_renew (fullName : String) (duration : UInt64) (name : String) :
    (ledger.send account (.renew fullName duration)).holding? name =
      if name = fullName then
        (ledger.holding? fullName).map fun holding =>
          { holding with renewedSeconds := saturatingAdd holding.renewedSeconds duration }
      else ledger.holding? name := by
  unfold Ledger.holding? Ledger.send
  rw [Ledger.name?_after_renew]
  split
  · cases ledger.name? fullName <;> rfl
  · rfl

/-- The names after all that an item sends are those of the tally. -/
theorem count_names (names : ledger.holding? = t.names) (fresh : t.ended item.index = none) :
    (item.sends.foldl (Ledger.send account) ledger).holding? = (t.count item).names := by
  have named : t.names item.fullName = ledger.holding? item.fullName := by rw [names]
  funext name
  unfold Tally.count Item.sends
  rw [fresh, named, ← Processor.toOption_owner]
  cases kind : item.kind with
  | renew =>
    dsimp only
    rw [List.foldl_cons, List.foldl_nil, holding?_send_renew, names]
    cases held : t.names item.fullName with
    | none =>
      split
      · rename_i same
        rw [same]
        exact held.symm
      · rfl
    | some holding => rfl
  | register =>
    cases Processor.owner item with
    | error error => cases ledger.holding? item.fullName <;> exact congrFun names name
    | ok owner =>
      have free : (ledger.send account (.commit (item.registration owner).commitment)).canRegister
          (item.registration owner) = (t.names item.fullName).isNone := by
        unfold Ledger.send
        rw [Ledger.canRegister_after_commit, named]
        exact Option.isNone_map.symm
      dsimp only
      rw [List.foldl_cons, List.foldl_cons, List.foldl_nil, holding?_send_register,
        holding?_send_commit, names, free]
      cases t.names item.fullName with
      | none => simp; rfl
      | some holding => simp; rfl

end

variable {profile : Profile} {faults : Faults} {t : Tally} {start g g' : Ground}
  {item current final : Item} {receipts : List Receipt}

/-- What it takes for work to go as it is tallied. -/
structure Sure (profile : Profile) (faults : Faults) : Prop where
  gateway : ¬ faults.gateway
  free : profile.nonceOverride = none

/-- An item of the start is still there, as it has become. -/
theorem Tallied.there (tallied : Tallied t start g) (here : Items.Holds start.store item) :
    ∃ current, Items.Holds g.store current ∧ current.index = item.index := by
  cases ended : t.ended item.index with
  | none => exact ⟨item, tallied.waiting item here ended, rfl⟩
  | some status =>
    obtain ⟨_, final, held, origin, _⟩ := tallied.ended item status here ended
    exact ⟨final, held, Item.index_eq_of_origin origin⟩

/-- The work on an item of the start does to store and ledger what counting it does to the tally. -/
theorem Tallied.drive (tallied : Tallied t start g) (sure : Sure profile faults)
    (untouched : ∀ item, Items.Holds start.store item → item.status = .initial)
    (inStep : g.InStep profile.admin) (room : (g.ledger.minedNonce profile.admin).toNat + 2 < 2 ^ 64)
    (here : Items.Holds start.store item) (held : Items.Holds g.store current)
    (same : current.index = item.index)
    (driven : Driven profile faults g current receipts g' final) :
    Tallied (t.count item) start g' ∧ g'.InStep profile.admin ∧
      (g'.ledger.minedNonce profile.admin).toNat ≤
        (g.ledger.minedNonce profile.admin).toNat + 2 ∧
      ∃ txs : List TxHandle, receipts = txs.map .ok ∧ t.sent + txs.length = (t.count item).sent := by
  cases fresh : t.ended item.index with
  | some status =>
    obtain ⟨terminal, rested, held', origin, rfl⟩ := tallied.ended item status here fresh
    cases Items.holds_inj held held' (same.trans (Item.index_eq_of_origin origin).symm)
    obtain ⟨rfl, rfl, rfl⟩ := driven.at_rest terminal
    have counted : t.count item = t := by
      unfold Tally.count
      rw [fresh]
      rfl
    rw [counted]
    exact ⟨tallied, inStep, Nat.le_add_right _ _, [], rfl, rfl⟩
  | none =>
    cases Items.holds_inj held (tallied.waiting item here fresh) same
    obtain ⟨verdict, ledger, ⟨txs, rfl, count⟩, inStep'⟩ :=
      driven.settles sure.gateway sure.free inStep room (untouched _ here)
    have frame := driven.frame held
    refine ⟨⟨frame.tidy tallied.tidy, ?_, ?_, ?_, ?_⟩, inStep', ?_, txs, rfl, ?_⟩
    · rw [ledger]
      exact count_names tallied.names fresh
    · intro other there
      by_cases apart : other.index = item.index
      · exact ⟨item, here, apart.symm⟩
      · exact tallied.known other ((frame.others other apart).1 there)
    · intro other there waiting
      rw [count_ended tallied.names fresh] at waiting
      by_cases apart : other.index = item.index
      · rw [if_pos apart] at waiting
        cases waiting
      · rw [if_neg apart] at waiting
        exact (frame.others other apart).2 (tallied.waiting other there waiting)
    · intro other status there ended
      rw [count_ended tallied.names fresh] at ended
      by_cases apart : other.index = item.index
      · rw [if_pos apart] at ended
        cases Items.holds_inj there here apart
        cases ended
        exact ⟨verdict ▸ driven.terminal, final, frame.held, driven.origin, verdict⟩
      · rw [if_neg apart] at ended
        obtain ⟨terminal, rested, held', origin, status⟩ := tallied.ended other status there ended
        refine ⟨terminal, rested, (frame.others rested ?_).2 held', origin, status⟩
        rw [Item.index_eq_of_origin origin]
        exact apart
    · exact driven.grows.trans (Nat.add_le_add_left (Item.toSend_le _) _)
    · rw [count_sent fresh, count]

/-- The work on items of the start, in any order and as often as one likes, is tallied by counting
them in that order. -/
theorem Tallied.work (items : List Item) {t : Tally} {g : Ground} {receipts : List Receipt}
    (tallied : Tallied t start g) (sure : Sure profile faults)
    (untouched : ∀ item, Items.Holds start.store item → item.status = .initial)
    (inStep : g.InStep profile.admin)
    (room : (g.ledger.minedNonce profile.admin).toNat + 2 * items.length < 2 ^ 64)
    (here : ∀ item ∈ items, Items.Holds start.store item)
    (worked : Worked profile faults g (items.map (·.index)) receipts g') :
    Tallied (items.foldl Tally.count t) start g' ∧ g'.InStep profile.admin ∧
      (g'.ledger.minedNonce profile.admin).toNat ≤
        (g.ledger.minedNonce profile.admin).toNat + 2 * items.length ∧
      ∃ txs : List TxHandle, receipts = txs.map .ok ∧
        t.sent + txs.length = (items.foldl Tally.count t).sent := by
  induction items generalizing t g receipts with
  | nil =>
    cases worked
    exact ⟨tallied, inStep, Nat.le_refl _, [], rfl, rfl⟩
  | cons item rest ih =>
    have item_here := here item List.mem_cons_self
    rw [List.length_cons] at room
    rw [List.map_cons] at worked
    generalize index : item.index = i at worked
    cases worked with
    | drive held driven later =>
      obtain ⟨tallied', inStep', few, txs, rfl, count⟩ :=
        tallied.drive sure untouched inStep (by omega) item_here held index.symm driven
      obtain ⟨done, inStep'', few', more, rfl, counts⟩ := ih tallied' inStep' (by omega)
        (fun other there => here other (List.mem_cons_of_mem _ there)) later
      refine ⟨done, inStep'', ?_, txs ++ more, List.map_append.symm, ?_⟩
      · rw [List.length_cons]
        omega
      · rw [List.foldl_cons, List.length_append]
        omega
    | miss absent =>
      obtain ⟨current, held, same⟩ := tallied.there item_here
      rw [← index, ← same, held.2] at absent
      cases absent

/-- Every item that is left to a scan is one that was not counted yet. -/
theorem Tallied.pending_eq (tallied : Tallied t start g)
    (untouched : ∀ item, Items.Holds start.store item → item.status = .initial) :
    pending g.store Status.resumeBuckets = Items.bucket g.store .initial ∧
      ∀ item ∈ Items.bucket g.store .initial, Items.Holds start.store item := by
  have begun : ∀ item, Items.Holds g.store item → item.status.isTerminal = false →
      item.status = .initial ∧ Items.Holds start.store item := by
    intro item held live
    obtain ⟨first, here, same⟩ := tallied.known item held
    cases ended : t.ended first.index with
    | none =>
      cases Items.holds_inj held (tallied.waiting first here ended) same.symm
      exact ⟨untouched item here, here⟩
    | some status =>
      obtain ⟨terminal, final, held', origin, rfl⟩ := tallied.ended first status here ended
      cases Items.holds_inj held held'
        (same.symm.trans (Item.index_eq_of_origin origin).symm)
      rw [terminal] at live
      cases live
  have empty : ∀ status : Status, status ≠ .initial → status.isTerminal = false →
      Items.bucket g.store status = [] := by
    intro status other live
    apply List.eq_nil_iff_forall_not_mem.2
    intro item there
    obtain ⟨held, rfl⟩ := (Items.mem_bucket tallied.tidy).1 there
    exact other (begun item held live).1
  constructor
  · simp only [pending, Status.resumeBuckets, List.flatMap_cons, List.flatMap_nil,
      empty .commitSent (by decide) rfl, empty .commitDone (by decide) rfl,
      empty .registerSent (by decide) rfl, empty .renewSent (by decide) rfl, List.append_nil]
  · intro item there
    obtain ⟨held, status⟩ := (Items.mem_bucket tallied.tidy).1 there
    exact (begun item held (by rw [status]; rfl)).2

/-- A store and a ledger whose items were not begun. -/
structure Untouched (g : Ground) : Prop where
  tidy : Items.Tidy g.store
  initial : ∀ item, Items.Holds g.store item → item.status = .initial

theorem untouched_of_empty (empty : g.store.scan Items.keyStart = []) : Untouched g where
  tidy := (Items.empty_of_scan empty).1
  initial item held := absurd held ((Items.empty_of_scan empty).2 item)

theorem Untouched.tallied (untouched : Untouched start) :
    Tallied (.start start.ledger) start start where
  tidy := untouched.tidy
  names := rfl
  known item held := ⟨item, held, rfl⟩
  waiting _ held _ := held
  ended _ _ _ ended := nomatch ended

/-- The backend after some requests were added, each with its secret. -/
def Backend.fill (backend : Backend) (requests : List (ItemRequest × Secret)) : Backend :=
  requests.foldl
    (fun backend (request, secret) => (backend.perform (Queue.create request secret).run).backend)
    backend

theorem fill_cons (backend : Backend) (request : ItemRequest) (secret : Secret)
    (rest : List (ItemRequest × Secret)) :
    backend.fill ((request, secret) :: rest) =
      (backend.perform (Queue.create request secret).run).backend.fill rest := rfl

theorem Untouched.filed (untouched : Untouched g) (filed : Filed g g') : Untouched g' where
  tidy := filed.tidy untouched.tidy
  initial item held := (filed.items item held).elim (untouched.initial item) (·.initial.1)

/-- Requests only put items that were not begun into the store. -/
theorem fill_untouched (requests : List (ItemRequest × Secret))
    (fits : ∀ request ∈ requests, request.1.Fits) {backend : Backend}
    (within : backend.Within faults) (untouched : Untouched backend.ground) :
    (backend.fill requests).Within faults ∧ (backend.fill requests).profile = backend.profile ∧
      Untouched (backend.fill requests).ground ∧
      (backend.fill requests).ground.ledger = backend.ground.ledger ∧
      ∀ account, (backend.fill requests).ground.nextNonce account =
        backend.ground.nextNonce account := by
  induction requests generalizing backend with
  | nil => exact ⟨within, rfl, untouched, rfl, fun _ => rfl⟩
  | cons first rest ih =>
    obtain ⟨request, secret⟩ := first
    obtain ⟨kept, same, _, filed, _⟩ := create_filed within (fits _ List.mem_cons_self) secret
    obtain ⟨kept', same', untouched', ledger, nonce⟩ :=
      ih (fun request there => fits request (List.mem_cons_of_mem _ there)) kept
        (untouched.filed filed)
    rw [fill_cons]
    exact ⟨kept', same'.trans same, untouched', ledger.trans filed.ledger,
      fun account => (nonce account).trans (filed.nextNonce account)⟩

/-- Counting an item ends it, if it has not ended, and no other. -/
theorem ended_count (t : Tally) (item : Item) :
    ∃ status, (t.count item).ended =
      fun index => if index = item.index then some status else t.ended index := by
  unfold Tally.count
  cases fresh : t.ended item.index with
  | some status =>
    refine ⟨status, funext fun index => ?_⟩
    by_cases same : index = item.index
    · rw [if_pos same, same]
      exact fresh
    · rw [if_neg same]
      rfl
  | none =>
    cases item.kind <;>
      cases (Fixed.parse item.ownerEthAddress : Except _ Address).toOption <;>
      cases t.names item.fullName <;> exact ⟨_, rfl⟩

/-- An item that was counted has ended, and stays so. -/
theorem isSome_ended_foldl {items : List Item} {t : Tally}
    (counted : item ∈ items ∨ (t.ended item.index).isSome = true) :
    ((items.foldl Tally.count t).ended item.index).isSome = true := by
  induction items generalizing t with
  | nil => exact counted.resolve_left List.not_mem_nil
  | cons other rest ih =>
    apply ih
    obtain ⟨status, ended⟩ := ended_count t other
    rw [ended]
    dsimp only
    rcases counted with there | some
    · rcases List.mem_cons.1 there with rfl | there
      · exact .inr (by rw [if_pos rfl]; rfl)
      · exact .inl there
    · right
      split
      · rfl
      · exact some

/-- Counted items rest as the tally says. -/
theorem Tallied.ends {items : List Item} (tallied : Tallied (items.foldl Tally.count t) start g)
    (here : ∀ item ∈ items, Items.Holds start.store item) :
    ∀ item ∈ items, ∃ final, Items.Holds g.store final ∧ final.origin = item.origin ∧
      final.status.isTerminal = true ∧
      (items.foldl Tally.count t).ended item.index = some final.status := by
  intro item there
  obtain ⟨status, ended⟩ := Option.isSome_iff_exists.1 (isSome_ended_foldl (t := t) (.inl there))
  obtain ⟨terminal, final, held, origin, rfl⟩ := tallied.ended item status (here item there) ended
  exact ⟨final, held, origin, terminal, ended⟩

/-- The work on some items has come to their tally: all that was sent was accepted, and the nonces
are in step. -/
structure AsTallied (filled : Backend) (items : List Item) (receipts : List Receipt)
    (last : Backend) : Prop where
  tallied : Tallied (items.foldl Tally.count (.start filled.ground.ledger)) filled.ground last.ground
  ends : ∀ item ∈ items, ∃ final, Items.Holds last.ground.store final ∧
    final.origin = item.origin ∧ final.status.isTerminal = true ∧
    (items.foldl Tally.count (.start filled.ground.ledger)).ended item.index = some final.status
  accepted : ∃ txs : List TxHandle, receipts = txs.map .ok ∧
    txs.length = (items.foldl Tally.count (.start filled.ground.ledger)).sent
  inStep : last.ground.InStep filled.profile.admin

/-- A queue that was filled by requests, on a ledger in step, ends items as the tally of them in the
order in which a worker is given them, and a resume scan ends all others in the order of their
keys. -/
theorem processed_as_tallied {backend : Backend} (requests : List (ItemRequest × Secret))
    (items : List Item) (within : backend.Within .none)
    (free : backend.profile.nonceOverride = none)
    (empty : backend.ground.store.scan Items.keyStart = [])
    (inStep : backend.ground.InStep backend.profile.admin)
    (fits : ∀ request ∈ requests, request.1.Fits) :
    let filled := backend.fill requests
    let worked := filled.perform (Queue.workThrough false (items.map (·.index)))
    let left := Items.bucket worked.backend.ground.store .initial
    (∀ item ∈ items, Items.Holds filled.ground.store item) →
    (filled.ground.ledger.minedNonce filled.profile.admin).toNat +
      2 * (items.length + (Items.bucket filled.ground.store .initial).length) < 2 ^ 64 →
    worked.value = some () ∧ AsTallied filled items worked.receipts worked.backend ∧
      ∃ receipts last,
        Repeats (Resume.round false) worked.backend .start receipts (.ok ()) last ∧
          AsTallied filled (items ++ left) (worked.receipts ++ receipts) last := by
  intro filled worked left stored room
  obtain ⟨within', same, untouched, ledger, nonce⟩ : filled.Within .none ∧
      filled.profile = backend.profile ∧ Untouched filled.ground ∧
      filled.ground.ledger = backend.ground.ledger ∧
      ∀ account, filled.ground.nextNonce account = backend.ground.nextNonce account :=
    fill_untouched requests fits within (untouched_of_empty empty)
  have sure : Sure filled.profile .none := ⟨id, by rw [same]; exact free⟩
  have ready : filled.ground.InStep filled.profile.admin := by
    unfold Ground.InStep
    rw [nonce, ledger, same]
    exact inStep
  obtain ⟨kept, same', finished, work⟩ :=
    workThrough_worked (items.map (·.index)) within' id id untouched.tidy
  obtain ⟨tallied, inStep', few, txs, receipts, sent⟩ :=
    untouched.tallied.work items sure untouched.initial ready (by omega) stored work
  obtain ⟨receipts', last, repeats, _, same'', swept⟩ :=
    scan_worked kept id id (fun status => Status.mem_resumeBuckets.1) (by decide) tallied.tidy
  obtain ⟨pending, here⟩ := tallied.pending_eq untouched.initial
  rw [pending, same'] at swept
  have fewer : left.length ≤ (Items.bucket filled.ground.store .initial).length := by
    refine (Items.nodup_bucket tallied.tidy .initial).length_le_of_subset fun item there => ?_
    have held := here item there
    exact (Items.mem_bucket untouched.tidy).2 ⟨held, untouched.initial item held⟩
  have few : (worked.backend.ground.ledger.minedNonce filled.profile.admin).toNat ≤
      (filled.ground.ledger.minedNonce filled.profile.admin).toNat + 2 * items.length := few
  obtain ⟨tallied', inStep'', _, txs', receipts'', sent'⟩ :=
    tallied.work left sure untouched.initial inStep' (by omega) here swept
  have start : (Tally.start filled.ground.ledger).sent = 0 := rfl
  refine ⟨finished, ⟨tallied, tallied.ends stored, ⟨txs, receipts, by omega⟩, inStep'⟩, receipts',
    last, repeats, ?_⟩
  have total : txs.length + txs'.length =
      (left.foldl Tally.count (items.foldl Tally.count (.start filled.ground.ledger))).sent := by
    omega
  rw [← List.foldl_append] at tallied' total
  have here' : ∀ item ∈ items ++ left, Items.Holds filled.ground.store item := fun item there =>
    (List.mem_append.1 there).elim (stored item) (here item)
  refine ⟨tallied', tallied'.ends here', ⟨txs ++ txs', ?_, ?_⟩, inStep''⟩
  · rw [receipts, receipts'', List.map_append]
  · rw [List.length_append]
    exact total

namespace Sample

/-- Two registrations of one name, a renewal of it, and a registration without an owner. -/
def requests : List (ItemRequest × Secret) :=
  let owner := "0x10d5B0e279E5E4c1d1Df5F57DFB7E84813920a51"
  [(.register ⟨"a.any", "x", owner, ""⟩, .fill 1), (.register ⟨"a.any", "y", owner, ""⟩, .fill 2),
    (.renew ⟨"a.any", 5⟩, .fill 3), (.register ⟨"b.any", "x", "0x10", ""⟩, .fill 4)]

def filled : Backend := (Backend.fresh .sample ⟨7, 1⟩ 0).fill requests

/-- The items in the order in which they are worked on: the renewal comes too early. -/
def items : List Item :=
  let item := fun (index : Int64) (now : UInt64) (request : ItemRequest × Secret) =>
    Item.ofRequest index request.2 now request.1
  match requests with
  | [first, second, renewal, ownerless] =>
    [item 2 9 renewal, item 0 7 first, item 1 8 second, item 3 10 ownerless, item 0 7 first]
  | _ => []

def tally : Tally := items.foldl Tally.count (.start filled.ground.ledger)

end Sample

set_option maxRecDepth 4000 in
theorem renewed_too_early :
    let worked := Sample.filled.perform (Queue.workThrough false [2, 0, 1, 3, 0])
    worked.value = some () ∧
      AsTallied Sample.filled Sample.items worked.receipts worked.backend ∧
      [2, 0, 1, 3].map Sample.tally.ended =
        [some .renewError, some .completed, some .error, some .commitError] ∧
      Sample.tally.sent = 5 := by
  obtain ⟨finished, tallied, _⟩ :=
    processed_as_tallied Sample.requests Sample.items
      (Backend.within_fresh .sample ⟨7, 1⟩ 0 .none) rfl (by decide) rfl (by decide)
      (by decide) (by decide)
  exact ⟨finished, tallied, by decide, by decide⟩

end Registrar
