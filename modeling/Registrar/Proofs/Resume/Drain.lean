import Registrar.Proofs.Chronicle
import Registrar.Proofs.Layout.Canonical

/-!
What a resume scan leaves. A scan goes round by round (`Resume.Rounds`), and a round is a search with a run
of `Processor.process` on the item that it has found, or a search alone (`Resume.Round`).

Here the gateway may answer anything, the store has any records, those of items under their own keys, and
does not fail. `rested_process` says that the work on an item brings it to rest and touches no other record
but those of nonces, and `Resume.drains` that a scan works on every item that is not at rest once, in the
order in which it searches, and that no such item is left.
-/

namespace Registrar

open Item (Status)

/-- What becomes of each request, in the order in which they are made. -/
abbrev Fate : Type := Nat → Fortune

/-- The answer to the next request, over a store that was asked some number of times before. -/
def Fate.answer (fate : Fate) (state : Store × Nat) (request : Work.Request) :
    request.Answer × (Store × Nat) :=
  (((fate state.2).serve state.1 request).1, ((fate state.2).serve state.1 request).2, state.2 + 1)

/-- What a program hears on its way, in order. -/
def Fate.heard {α : Type} (fate : Fate) : Program Work α → Store × Nat → List Exchange
  | .done _, _ => []
  | .ask request next, state =>
    ⟨request, (fate.answer state request).1⟩ ::
      fate.heard (next (fate.answer state request).1) (fate.answer state request).2

/-- A program is run: with these exchanges it finishes with the value, and leaves the state after them. -/
structure Fate.Runs {α : Type} (fate : Fate) (program : Program Work α) (state : Store × Nat)
    (heard : List Exchange) (value : α) (last : Store × Nat) : Prop where
  heard : fate.heard program state = heard
  ends : program.runWith fate.answer state = (value, last)

namespace Fate

variable {α β : Type} {fate : Fate} {state mid last last' : Store × Nat} {heard later : List Exchange}

theorem runs (fate : Fate) (program : Program Work α) (state : Store × Nat) :
    fate.Runs program state (fate.heard program state) (program.runWith fate.answer state).1
      (program.runWith fate.answer state).2 :=
  ⟨rfl, rfl⟩

theorem Runs.done (value : α) : fate.Runs (.done value) state [] value state := ⟨rfl, rfl⟩

theorem Runs.ask {request : Work.Request} {next : Work.Answer request → Program Work α}
    {answer : Work.Answer request} {value : α} (answered : fate.answer state request = (answer, mid))
    (runs : fate.Runs (next answer) mid heard value last) :
    fate.Runs (.ask request next) state (⟨request, answer⟩ :: heard) value last := by
  obtain ⟨rfl, ends⟩ := runs
  constructor
  · simp only [Fate.heard, answered]
  · simp only [Program.runWith, answered, ends]

theorem heard_bind (fate : Fate) (program : Program Work α) (f : α → Program Work β)
    (state : Store × Nat) :
    fate.heard (program.bind f) state =
      fate.heard program state ++
        fate.heard (f (program.runWith fate.answer state).1) (program.runWith fate.answer state).2 := by
  induction program generalizing state with
  | done value => rfl
  | ask request next ih => exact congrArg _ (ih _ _)

/-- A program is run, and then another one on its value. -/
theorem Runs.bind {program : Program Work α} {f : α → Program Work β} {value : α} {result : β}
    (first : fate.Runs program state heard value mid) (second : fate.Runs (f value) mid later result last) :
    fate.Runs (program.bind f) state (heard ++ later) result last := by
  constructor
  · rw [heard_bind, first.heard, first.ends, second.heard]
  · have ran := Program.runWith_bind fate.answer program f state
    rw [first.ends] at ran
    exact ran.trans second.ends

theorem Runs.unique {program : Program Work α} {value value' : α}
    (first : fate.Runs program state heard value last) (second : fate.Runs program state later value' last') :
    value = value' ∧ last = last' :=
  Prod.mk.inj (first.ends.symm.trans second.ends)

end Fate

namespace Resume

/-- One round of a scan, exchange by exchange: its search finds nobody, and it is over; or it finds an item,
and what follows is a run of `Processor.process` on that item and nothing else. -/
inductive Round (skip : Bool) (fate : Fate) (resume : Resume) (state : Store × Nat) :
    Option Item → Next Resume (Except QueueError Unit) → Store × Nat → Prop where
  | idle {search later next last} :
      fate.Runs resume.seek state search (none, later) last →
      fate.Runs (resume.round skip) state search next last →
      Round skip fate resume state none next last
  | work {item search later mid work result next last} :
      fate.Runs resume.seek state search (some item, later) mid →
      fate.Runs (Processor.process skip item).run mid work result last →
      fate.Runs (resume.round skip) state (search ++ work) next last →
      Round skip fate resume state (some item) next last

/-- Where a round of a scan begins, and what it works on: how far the scan has come, the store, how many
requests were made before, and the item on which `Processor.process` is run. -/
structure Point where
  resume : Resume
  state : Store × Nat
  worked : Option Item

/-- The rounds of a scan to its end, by where each of them begins. -/
inductive Rounds (skip : Bool) (fate : Fate) :
    Resume → Store × Nat → List Point → Except QueueError Unit → Store × Nat → Prop where
  | finish {resume state worked value last} :
      Round skip fate resume state worked (.finished value) last →
      Rounds skip fate resume state [⟨resume, state, worked⟩] value last
  | again {resume state worked next mid points value last} :
      Round skip fate resume state worked (.again next) mid →
      Rounds skip fate next mid points value last →
      Rounds skip fate resume state (⟨resume, state, worked⟩ :: points) value last

/-- A scan to its end, with the items on which `Processor.process` is run, in order. -/
def Scans (skip : Bool) (fate : Fate) (resume : Resume) (state : Store × Nat) (items : List Item)
    (value : Except QueueError Unit) (last : Store × Nat) : Prop :=
  ∃ points, Rounds skip fate resume state points value last ∧ points.filterMap (·.worked) = items

variable {skip : Bool} {fate : Fate} {resume : Resume} {state mid last last' : Store × Nat}
  {items items' : List Item} {value value' : Except QueueError Unit} {worked worked' : Option Item}
  {points points' : List Point} {next next' : Next Resume (Except QueueError Unit)}

theorem Round.ends (round : Round skip fate resume state worked next last) :
    (resume.round skip).runWith fate.answer state = (next, last) := by
  cases round with
  | idle _ runs | work _ _ runs => exact runs.ends

theorem Round.unique (round : Round skip fate resume state worked next last)
    (other : Round skip fate resume state worked' next' last') :
    worked = worked' ∧ next = next' ∧ last = last' := by
  obtain ⟨rfl, rfl⟩ := Prod.mk.inj (round.ends.symm.trans other.ends)
  refine ⟨?_, rfl, rfl⟩
  cases round with
  | idle found =>
    cases other with
    | idle => rfl
    | work found' => cases (found.unique found').1
  | work found =>
    cases other with
    | idle found' => cases (found.unique found').1
    | work found' =>
      cases (found.unique found').1
      rfl

theorem Rounds.unique (rounds : Rounds skip fate resume state points value last)
    (other : Rounds skip fate resume state points' value' last') :
    points = points' ∧ value = value' ∧ last = last' := by
  induction rounds generalizing points' value' last' with
  | finish round =>
    cases other with
    | finish round' =>
      obtain ⟨rfl, same, rfl⟩ := round.unique round'
      cases same
      exact ⟨rfl, rfl, rfl⟩
    | again round' => cases (round.unique round').2.1
  | again round _ ih =>
    cases other with
    | finish round' => cases (round.unique round').2.1
    | again round' later =>
      obtain ⟨rfl, same, rfl⟩ := round.unique round'
      cases same
      obtain ⟨rfl, rfl, rfl⟩ := ih later
      exact ⟨rfl, rfl, rfl⟩

theorem Scans.again {later : Resume} (round : Round skip fate resume state worked (.again later) mid)
    (scans : Scans skip fate later mid items value last) :
    Scans skip fate resume state (worked.toList ++ items) value last := by
  obtain ⟨points, rounds, rfl⟩ := scans
  refine ⟨_, .again round rounds, ?_⟩
  cases worked <;> rfl

theorem Scans.unique (scans : Scans skip fate resume state items value last)
    (other : Scans skip fate resume state items' value' last') :
    items = items' ∧ value = value' ∧ last = last' := by
  obtain ⟨points, rounds, rfl⟩ := scans
  obtain ⟨points', rounds', rfl⟩ := other
  obtain ⟨rfl, rfl, rfl⟩ := rounds.unique rounds'
  exact ⟨rfl, rfl, rfl⟩

end Resume

theorem Stage.Due.origin {skip : Bool} {stage : Stage} {item written : Item}
    (due : Due skip stage item written) : written.origin = item.origin := by
  cases due with
  | failed | noted | skipped => rfl
  | sent => exact Item.origin_record _ _ _

/-- The request and its answer. -/
def Fortune.exchange (fortune : Fortune) (store : Store) (request : Work.Request) : Exchange :=
  ⟨request, (fortune.serve store request).1⟩

theorem Fortune.exchange_on (fortune : Fortune) (store : Store) (request : Work.Request) :
    (fortune.exchange store request).on store = (fortune.serve store request).2 :=
  (fortune.serve_on store request).symm

/-- A fact about the store and the stage that every request keeps holds when the work is done. -/
theorem Program.Heeds.run {α : Type} {skip : Bool} {fate : Fate} {program : Program Work α}
    {fits : α → Stage → Prop} {kept : Store → Stage → Prop}
    (keeps : ∀ n store stage request stage', kept store stage →
      Conducts skip stage ((fate n).exchange store request) stage' →
      kept (((fate n).exchange store request).on store) stage')
    {stage : Stage} (heeds : program.Heeds .wild (Conduct skip) fits stage) {state : Store × Nat}
    (now : kept state.1 stage) :
    ∃ stage', fits (program.runWith fate.answer state).1 stage' ∧
      kept (program.runWith fate.answer state).2.1 stage' := by
  induction program generalizing stage state with
  | done value => exact ⟨stage, heeds, now⟩
  | ask request next ih =>
    have replies := (fate state.2).replies ⟨state.1, .fresh 0⟩ request
    obtain ⟨stage', conducts, later⟩ := heeds _ _ _ replies
    have kept' : kept ((fate state.2).serve state.1 request).2 stage' :=
      (fate state.2).exchange_on state.1 request ▸ keeps state.2 _ _ _ _ now conducts
    exact ih _ later kept'

/-- The store did not fail, and answered what it has. -/
def Exchange.Faithful (store : Store) : Exchange → Prop
  | ⟨.store request, answer⟩ => answer = .ok (store.serve request).1
  | _ => True

theorem Fortune.faithful {fortune : Fortune} (steady : fortune.failure = none) (store : Store)
    (request : Work.Request) : (fortune.exchange store request).Faithful store := by
  cases request with
  | now | gateway => trivial
  | store request =>
    unfold exchange serve
    rw [steady]
    rfl

/-- The items of some indices are brought to rest, and no other record is touched but those of
nonces. -/
structure Rested (store : Store) (indices : List Int64) (after : Store) : Prop where
  rests : ∀ index ∈ indices,
    ∃ final, Items.Has after final ∧ final.index = index ∧ final.status.isTerminal = true
  others : ∀ k, (∀ index ∈ indices, k ≠ Items.key index) → (∀ account, k ≠ Nonce.key account) →
    after.get? k = store.get? k

/-- The item that is about to be written. -/
def Stage.written : Stage → Option Item
  | .writing _ written => some written
  | _ => none

/-- What a request in the work on an item comes to, where the store does not fail. -/
inductive Effect (store : Store) (item : Item) : Stage → Store → Stage → Prop where
  | stay {stage stage'} : stage'.item = some item → stage'.written = none →
      Effect store item stage store stage'
  | note {stage stage' record} : stage'.item = some item → stage'.written = none →
      Effect store item stage (store.withNonce record) stage'
  | date {stage written} : written.origin = item.origin →
      Effect store item stage store (.writing item written)
  | check {written} : store.contains (Items.key item.index) = true →
      Effect store item (.writing item written) store (.writing item written)
  | lose {written} : store.contains (Items.key item.index) = false →
      Effect store item (.writing item written) store .idle
  | write {written} : Effect store item (.writing item written)
      (store.put (Items.key item.index) (Items.encode written)) (.held written none)

theorem Conducts.effect {skip : Bool} {stage stage' : Stage} {exchange : Exchange} {store : Store}
    (conducts : Conducts skip stage exchange stage') (faithful : exchange.Faithful store) :
    ∃ item, stage.item = some item ∧ Effect store item stage (exchange.on store) stage' := by
  have stays : ∀ {item : Item}, stage.item = some item → exchange.on store = store →
      stage'.item = some item → stage'.written = none →
      ∃ item, stage.item = some item ∧ Effect store item stage (exchange.on store) stage' := by
    intro item hand same hand' unwritten
    rw [same]
    exact ⟨item, hand, .stay hand' unwritten⟩
  cases conducts with
  | opens | promise => exact stays rfl rfl rfl rfl
  | @commit _ _ _ _ _ answer | @register _ _ _ _ _ answer | @renew _ _ _ _ answer
  | @find _ _ _ _ _ answer =>
    rcases answer with error | tx <;> exact stays rfl rfl rfl rfl
  | @await _ _ _ answer => rcases answer with error | _ | _ <;> exact stays rfl rfl rfl rfl
  | note =>
    cases faithful
    exact ⟨_, rfl, @Effect.note store _ _ _ ⟨_, _⟩ rfl rfl⟩
  | date due => exact ⟨_, Stage.item_of_due due, .date due.origin⟩
  | @check item written answer =>
    cases faithful
    refine ⟨item, rfl, ?_⟩
    cases there : store.contains (Items.key item.index) with
    | true =>
      simp only [Store.serve, there]
      exact .check there
    | false =>
      simp only [Store.serve, there]
      exact .lose there
  | write =>
    cases faithful
    exact ⟨_, rfl, .write⟩

theorem Items.Has.contains {store : Store} {item : Item} (has : Has store item) :
    store.contains (key item.index) = true :=
  Store.contains_iff.2 ⟨has.choose, has.choose_spec.1⟩

theorem Items.Has.fits {store : Store} {item : Item} (has : Has store item) : item.Fits :=
  Item.fits_of_decode has.choose_spec.2

/-- How far the work on the item of an index has come: it is in hand as the store has it, and no other
record was touched but those of nonces. -/
structure Underway (store : Store) (index : Int64) (now : Store) (stage : Stage) : Prop where
  held : ∃ item, stage.item = some item ∧ item.index = index ∧ Items.Has now item
  writing : ∀ written, stage.written = some written → written.Fits ∧ written.index = index
  others : ∀ k, k ≠ Items.key index → (∀ account, k ≠ Nonce.key account) →
    now.get? k = store.get? k

section

variable {skip : Bool} {store now : Store} {index : Int64} {stage stage' : Stage} {item : Item}

theorem Items.Has.put {k record : Bytes} (has : Has now item) (apart : Items.key item.index ≠ k) :
    Has (now.put k record) item := by
  obtain ⟨own, there, decoded⟩ := has
  exact ⟨own, by rw [Store.get?_put, if_neg apart, there], decoded⟩

theorem Items.keyed_empty : Keyed .empty := by
  intro k record item there
  cases there

theorem Items.Keyed.put (keyed : Keyed now) {k record : Bytes}
    (own : ∀ item, keyStart.isPrefixOf k = true → Item.layout.decode record = .ok item →
      k = key item.index) : Keyed (now.put k record) := by
  intro k' record' item there begins decoded
  rw [Store.get?_put] at there
  split at there
  · rename_i same
    subst same
    cases there
    exact own item begins decoded
  · exact keyed k' record' item there begins decoded

theorem Items.Keyed.withItem (keyed : Keyed now) (fits : item.Fits) : Keyed (now.withItem item) :=
  keyed.put fun other _ decoded => by
    cases (decode_encode fits).symm.trans decoded
    rfl

theorem Items.has_withItem (fits : item.Fits) : Has (now.withItem item) item :=
  ⟨encode item, by rw [Store.withItem, Store.get?_put, if_pos rfl], decode_encode fits⟩

/-- A request that the store does not fail keeps the item in hand as the store has it. -/
theorem Underway.keeps {exchange : Exchange} (underway : Underway store index now stage)
    (conducts : Conducts skip stage exchange stage') (faithful : exchange.Faithful now) :
    Underway store index (exchange.on now) stage' := by
  obtain ⟨item, hand, own, has⟩ := underway.held
  obtain ⟨item', hand', effect⟩ := conducts.effect faithful
  cases hand'.symm.trans hand
  have unwritten : ∀ {stage : Stage}, stage.written = none → ∀ written, stage.written = some written →
      written.Fits ∧ written.index = index := fun none written same => by
    cases none.symm.trans same
  generalize exchange.on now = after at effect ⊢
  cases effect with
  | stay hand' none => exact ⟨⟨item, hand', own, has⟩, unwritten none, underway.others⟩
  | note hand' none =>
    refine ⟨⟨item, hand', own, has.put (Items.key_ne_nonce _ _)⟩, unwritten none, fun k apart other => ?_⟩
    exact (Store.get?_put ..).trans ((if_neg (other _)).trans (underway.others k apart other))
  | date same =>
    refine ⟨⟨item, rfl, own, has⟩, fun written same' => ?_, underway.others⟩
    cases same'
    exact ⟨(Item.fits_iff_of_origin same).2 has.fits, (Item.index_eq_of_origin same).trans own⟩
  | check => exact underway
  | lose absent => cases absent.symm.trans has.contains
  | @write written =>
    obtain ⟨fits, index⟩ := underway.writing written rfl
    have here : Items.key item.index = Items.key written.index := by rw [own, index]
    refine ⟨⟨written, rfl, index, ?_⟩, unwritten rfl, fun k apart other => ?_⟩
    · rw [here]
      exact Items.has_withItem fits
    · rw [own]
      exact (Store.get?_put ..).trans ((if_neg apart).trans (underway.others k apart other))

/-- The work on an item brings it to rest, whatever the gateway answers. -/
theorem rested_process (skip : Bool) {fate : Fate} (steady : ∀ n, (fate n).failure = none)
    (state : Store × Nat) (has : Items.Has state.1 item) :
    Rested state.1 [item.index]
      ((Processor.process skip item).run.runWith fate.answer state).2.1 := by
  have start : Underway state.1 item.index state.1 (.held item none) :=
    ⟨⟨item, rfl, rfl, has⟩, (fun _ absent => by cases absent), fun _ _ _ => rfl⟩
  have heeds : (Processor.process skip item).run.Heeds .wild (Conduct skip) Processor.Concludes
      (.held item none) := Processor.heeds_conclude item
  obtain ⟨stage, concludes, underway⟩ := heeds.run
    (fun n _ _ request _ underway conducts =>
      Underway.keeps underway conducts (Fortune.faithful (steady n) _ request)) start
  obtain ⟨final, hand, own, has⟩ := underway.held
  refine ⟨fun index there => ⟨final, has, ?_, ?_⟩, fun k apart =>
    underway.others k (apart _ List.mem_cons_self)⟩
  · cases List.mem_singleton.1 there
    exact own
  · cases answer : ((Processor.process skip item).run.runWith fate.answer state).1 with
    | error error =>
      rw [answer] at concludes
      cases (concludes : stage = .idle)
      cases hand
    | ok status =>
      rw [answer] at concludes
      obtain ⟨last, promise, rfl, rfl, terminal⟩ := concludes
      cases hand
      exact terminal

end

namespace Rested

variable {store after last : Store} {indices later : List Int64} {status : Status} {item : Item}

/-- An item of another index is as it was. -/
theorem has_iff (rested : Rested store indices after) (apart : item.index ∉ indices) :
    Items.Has after item ↔ Items.Has store item := by
  have same := rested.others (Items.key item.index)
    (fun index there eq => apart (Items.key_inj eq ▸ there)) fun _ => Items.key_ne_nonce _ _
  unfold Items.Has
  rw [same]

theorem nothing (store : Store) : Rested store [] store := ⟨nofun, fun _ _ _ => rfl⟩

theorem append (first : Rested store indices after) (second : Rested after later last) :
    Rested store (indices ++ later) last where
  rests index there := by
    by_cases again : index ∈ later
    · exact second.rests index again
    · obtain ⟨final, has, rfl, terminal⟩ :=
        first.rests index ((List.mem_append.1 there).resolve_right again)
      exact ⟨final, (second.has_iff again).2 has, rfl, terminal⟩
  others k apart nonce :=
    (second.others k (fun index there => apart index (List.mem_append_right _ there)) nonce).trans
      (first.others k (fun index there => apart index (List.mem_append_left _ there)) nonce)

theorem keyed (rested : Rested store indices after) (keyed : Items.Keyed store) :
    Items.Keyed after := by
  intro k record item found begins read
  by_cases same : ∃ index ∈ indices, k = Items.key index
  · obtain ⟨index, there, rfl⟩ := same
    obtain ⟨final, ⟨own, found', decoded⟩, rfl, _⟩ := rested.rests index there
    cases found'.symm.trans found
    cases decoded.symm.trans read
    rfl
  · have kept := rested.others k (fun index there eq => same ⟨index, there, eq⟩) fun account eq => by
      rw [eq, Items.not_keyStart_isPrefixOf_nonce] at begins
      cases begins
    exact keyed k record item (kept.symm.trans found) begins read

/-- The items are in no bucket that a scan searches, and all others are where they were. -/
theorem bucket (rested : Rested store indices after) (keyed : Items.Keyed store)
    (live : status.isTerminal = false) :
    Items.bucket after status = (Items.bucket store status).filter (·.index ∉ indices) := by
  apply Items.eq_of_mem_bucket ((rested.keyed keyed).sorted_bucket status)
    ((keyed.sorted_bucket status).filter _)
  intro other
  rw [List.mem_filter, decide_eq_true_eq, (rested.keyed keyed).mem_bucket, keyed.mem_bucket]
  constructor
  · rintro ⟨has, rfl⟩
    have apart : other.index ∉ indices := by
      intro there
      obtain ⟨final, has', same, terminal⟩ := rested.rests _ there
      rw [Items.has_inj has' has same, live] at terminal
      cases terminal
    exact ⟨⟨(rested.has_iff apart).1 has, rfl⟩, apart⟩
  · rintro ⟨⟨has, rfl⟩, apart⟩
    exact ⟨(rested.has_iff apart).2 has, rfl⟩

/-- A bucket that the item was not in stays. -/
theorem bucket_other (rested : Rested store [item.index] after) (keyed : Items.Keyed store)
    (has : Items.Has store item) (live : status.isTerminal = false) (apart : item.status ≠ status) :
    Items.bucket after status = Items.bucket store status := by
  rw [rested.bucket keyed live, List.filter_eq_self]
  intro other there
  obtain ⟨has', rfl⟩ := keyed.mem_bucket.1 there
  refine decide_eq_true fun same => apart ?_
  exact congrArg Item.status (Items.has_inj has has' (List.mem_singleton.1 same).symm)

/-- A bucket that begins with the item goes on with the rest. -/
theorem bucket_first {rest : List Item} (rested : Rested store [item.index] after)
    (keyed : Items.Keyed store) (live : status.isTerminal = false)
    (first : Items.bucket store status = item :: rest) :
    Items.bucket after status = rest ∧ ∀ other ∈ rest, other.index ≠ item.index := by
  have sorted := keyed.sorted_bucket status
  rw [first] at sorted
  have apart : ∀ other ∈ rest, other.index ≠ item.index := by
    intro other there same
    have before := (List.pairwise_cons.1 sorted).1 other there
    rw [same] at before
    exact List.lt_irrefl _ before
  refine ⟨?_, apart⟩
  rw [rested.bucket keyed live, first, List.filter_cons_of_neg (by simp), List.filter_eq_self]
  exact fun other there => decide_eq_true fun same =>
    apart other there (List.mem_singleton.1 same)

end Rested

namespace Resume

variable {skip : Bool} {fate : Fate} {state : Store × Nat} {bucket : Status} {later : List Status}
  {tried : List Int64}

/-- What a search is answered, if the store does not fail it. -/
theorem answer_scan (steady : (fate state.2).failure = none) :
    fate.answer state (.store (.scan Items.keyStart)) =
      (.ok (state.1.scan Items.keyStart), state.1, state.2 + 1) := by
  unfold Fate.answer Fortune.serve
  rw [steady]
  rfl

/-- A search that finds nothing new goes on to the next status. -/
theorem round_none (skip : Bool) (later : List Status) (steady : (fate state.2).failure = none)
    (none : pick tried (Items.bucket state.1 bucket) = none) :
    Round skip fate ⟨bucket :: later, tried⟩ state Option.none (.again ⟨later, []⟩)
      (state.1, state.2 + 1) := by
  unfold Items.bucket at none
  have answered := answer_scan steady
  have search : fate.Runs (seek ⟨bucket :: later, tried⟩) state
      [⟨.store (.scan Items.keyStart), .ok (state.1.scan Items.keyStart)⟩]
      (Option.none, some ⟨later, []⟩) (state.1, state.2 + 1) := by
    rw [seek_eq]
    refine .ask answered ?_
    dsimp only
    rw [none]
    exact .done _
  refine .idle search ?_
  rw [round_eq]
  refine .ask answered ?_
  dsimp only
  rw [none]
  exact .done _

/-- A search that finds an item works on it. -/
theorem round_some (skip : Bool) (later : List Status) {item : Item}
    (steady : (fate state.2).failure = none)
    (found : pick tried (Items.bucket state.1 bucket) = some item) :
    Round skip fate ⟨bucket :: later, tried⟩ state (some item)
      (.again ⟨bucket :: later, item.index :: tried⟩)
      ((Processor.process skip item).run.runWith fate.answer (state.1, state.2 + 1)).2 := by
  unfold Items.bucket at found
  have answered := answer_scan steady
  have search : fate.Runs (seek ⟨bucket :: later, tried⟩) state
      [⟨.store (.scan Items.keyStart), .ok (state.1.scan Items.keyStart)⟩]
      (some item, some ⟨bucket :: later, item.index :: tried⟩) (state.1, state.2 + 1) := by
    rw [seek_eq]
    refine .ask answered ?_
    dsimp only
    rw [found]
    exact .done _
  have work := fate.runs (Processor.process skip item).run (state.1, state.2 + 1)
  refine .work search work ?_
  rw [round_eq, ← List.append_nil (fate.heard _ _)]
  refine .ask answered ?_
  dsimp only
  rw [found]
  exact work.bind (.done _)

/-- A scan works on some items, brings them to rest and ends without an error. -/
def Drains (skip : Bool) (fate : Fate) (resume : Resume) (state : Store × Nat)
    (items : List Item) : Prop :=
  ∃ last, Scans skip fate resume state items (.ok ()) last ∧
    Rested state.1 (items.map (·.index)) last.1

/-- The search in one bucket, after which the scan goes on as it does from the next one. -/
theorem drains_bucket (steady : ∀ n, (fate n).failure = none)
    (live : ∀ status ∈ bucket :: later, status.isTerminal = false) (apart : bucket ∉ later)
    (next : ∀ state : Store × Nat, Items.Keyed state.1 →
      Drains skip fate ⟨later, []⟩ state (pending state.1 later))
    {items : List Item} (keyed : Items.Keyed state.1)
    (searched : Items.bucket state.1 bucket = items) (untried : ∀ item ∈ items, item.index ∉ tried) :
    Drains skip fate ⟨bucket :: later, tried⟩ state (items ++ pending state.1 later) := by
  induction items generalizing state tried with
  | nil =>
    have none : pick tried (Items.bucket state.1 bucket) = none := by
      rw [searched]
      rfl
    obtain ⟨last, scans, rested⟩ := next (state.1, state.2 + 1) keyed
    exact ⟨last, .again (round_none skip later (steady _) none) scans, rested⟩
  | cons item rest ih =>
    have there : item ∈ Items.bucket state.1 bucket := by
      rw [searched]
      exact List.mem_cons_self
    obtain ⟨has, status⟩ := keyed.mem_bucket.1 there
    have found : pick tried (Items.bucket state.1 bucket) = some item := by
      rw [searched]
      unfold pick
      rw [List.find?_cons_of_pos]
      simpa using untried item List.mem_cons_self
    have rested := rested_process skip steady (state.1, state.2 + 1) has
    obtain ⟨searching, distinct⟩ := rested.bucket_first keyed (live _ List.mem_cons_self) searched
    -- The statuses that are still to be searched are not the item's, so their items stay.
    have waiting : ∀ after, Rested state.1 [item.index] after →
        pending after later = pending state.1 later := by
      intro after rested
      refine List.flatMap_congr fun status' there' => ?_
      refine rested.bucket_other keyed has (live _ (List.mem_cons_of_mem _ there')) ?_
      rintro rfl
      exact apart (status ▸ there')
    have untried' : ∀ other ∈ rest, other.index ∉ item.index :: tried := by
      intro other inRest
      rw [List.mem_cons, not_or]
      exact ⟨distinct other inRest, untried other (List.mem_cons_of_mem _ inRest)⟩
    obtain ⟨last, scans, rested'⟩ := ih (rested.keyed keyed) searching untried'
    rw [waiting _ rested] at scans rested'
    exact ⟨last, .again (round_some skip later (steady _) found) scans, rested.append rested'⟩

/-- A scan drains all its buckets, one after the other. -/
theorem drains_buckets (skip : Bool) (steady : ∀ n, (fate n).failure = none) {buckets : List Status}
    (live : ∀ status ∈ buckets, status.isTerminal = false) (apart : buckets.Nodup)
    (keyed : Items.Keyed state.1) :
    Drains skip fate ⟨buckets, []⟩ state (pending state.1 buckets) := by
  induction buckets generalizing state with
  | nil => exact ⟨_, ⟨_, .finish (.idle (.done _) (.done _)), rfl⟩, .nothing _⟩
  | cons bucket later ih =>
    obtain ⟨apart, apart'⟩ := List.nodup_cons.1 apart
    exact drains_bucket steady live apart
      (fun state keyed => ih (fun status there => live status (List.mem_cons_of_mem _ there)) apart' keyed)
      keyed rfl fun _ _ => List.not_mem_nil

end Resume

/-- A scan waits for exactly the items that are not at rest. -/
theorem mem_pending {store : Store} (keyed : Items.Keyed store) {item : Item} :
    item ∈ pending store Status.resumeBuckets ↔
      Items.Has store item ∧ item.status.isTerminal = false := by
  unfold pending
  rw [List.mem_flatMap]
  constructor
  · rintro ⟨status, there, found⟩
    obtain ⟨has, rfl⟩ := keyed.mem_bucket.1 found
    exact ⟨has, Status.mem_resumeBuckets.1 there⟩
  · rintro ⟨has, live⟩
    exact ⟨_, Status.mem_resumeBuckets.2 live, keyed.mem_bucket.2 ⟨has, rfl⟩⟩

theorem nodup_pending {store : Store} (keyed : Items.Keyed store) :
    ((pending store Status.resumeBuckets).map (·.index)).Nodup := by
  have distinct : (pending store Status.resumeBuckets).Nodup := by
    unfold pending
    refine List.nodup_flatMap.2 ⟨fun status _ => ?_, ?_⟩
    · refine (keyed.sorted_bucket status).imp fun before same => ?_
      rw [same] at before
      exact List.lt_irrefl _ before
    · have apart : Status.resumeBuckets.Nodup := by decide
      refine apart.imp fun other item found found' => other ?_
      rw [← (keyed.mem_bucket.1 found).2, (keyed.mem_bucket.1 found').2]
  refine distinct.map_on fun a ha b hb same => ?_
  exact Items.has_inj ((mem_pending keyed).1 ha).1 ((mem_pending keyed).1 hb).1 same

/-- Over a store whose items lie under their own keys and which does not fail, a resume scan ends
without an error, whatever the gateway answers and whether or not items are skipped. It works once on
each item that is not at rest, status by status and for each status in the order of the keys. Then no
item is left that is not at rest, and no other record was touched but those of nonces. -/
theorem Resume.drains (skip : Bool) (fate : Fate) (steady : ∀ n, (fate n).failure = none)
    (store : Store) (keyed : Items.Keyed store) :
    ∃ last : Store × Nat,
      (∀ items value last', Scans skip fate .start (store, 0) items value last' ↔
        items = pending store Status.resumeBuckets ∧ value = .ok () ∧ last' = last) ∧
      (∀ item, item ∈ pending store Status.resumeBuckets ↔
        Items.Has store item ∧ item.status.isTerminal = false) ∧
      ((pending store Status.resumeBuckets).map (·.index)).Nodup ∧
      (∀ status, (Items.bucket store status).Pairwise fun a b => Items.key a.index < Items.key b.index) ∧
      (∀ status ∈ Status.resumeBuckets, Items.bucket last.1 status = []) ∧
      ∀ k, (∀ item, Items.Has store item → item.status.isTerminal = false →
          k ≠ Items.key item.index) →
        (∀ account, k ≠ Nonce.key account) → last.1.get? k = store.get? k := by
  have drained : Drains skip fate .start (store, 0) (pending store Status.resumeBuckets) :=
    drains_buckets skip steady (fun _ there => Status.mem_resumeBuckets.1 there) (by decide) keyed
  obtain ⟨last, scans, rested⟩ := drained
  refine ⟨last, fun items value last' => ⟨fun scans' => ?_, ?_⟩, fun _ => mem_pending keyed,
    nodup_pending keyed, keyed.sorted_bucket, fun status there => ?_, fun k apart nonce => ?_⟩
  · obtain ⟨rfl, rfl, rfl⟩ := scans.unique scans'
    exact ⟨rfl, rfl, rfl⟩
  · rintro ⟨rfl, rfl, rfl⟩
    exact scans
  · have live := Status.mem_resumeBuckets.1 there
    rw [rested.bucket keyed live, List.filter_eq_nil_iff]
    intro item found
    obtain ⟨has, rfl⟩ := keyed.mem_bucket.1 found
    have worked := List.mem_map_of_mem (f := Item.index) ((mem_pending keyed).2 ⟨has, live⟩)
    simpa using worked
  · refine rested.others k (fun index there => ?_) nonce
    obtain ⟨item, worked, rfl⟩ := List.mem_map.1 there
    obtain ⟨has, live⟩ := (mem_pending keyed).1 worked
    exact apart item has live

/-- A scan without a gateway fails a new item and one whose status does not belong to its kind, and
leaves a record that is none of an item where it is. -/
theorem Resume.drains_offline :
    let fate : Fate := fun _ => ⟨fun _ => .error (.connection ""), none, 7⟩
    let name (index : Int64) : Item := .ofRequest index (.fill 1) 5 (.register ⟨"a.any", "", "", ""⟩)
    let scrap : Bytes := Items.keyStart ++ [7]
    let store : Store := ((Store.empty.put scrap [1]).withItem (name 3)).withItem
      { name 2 with status := .renewSent }
    ∃ last : Store × Nat, Scans false fate .start (store, 0)
        [name 3, { name 2 with status := .renewSent }] (.ok ()) last ∧
      (∀ status ∈ Status.resumeBuckets, Items.bucket last.1 status = []) ∧
      last.1.get? scrap = some [1] := by
  intro fate name scrap store
  have keyed : Items.Keyed store := by
    refine ((Items.keyed_empty.put fun item _ decoded => ?_).withItem (by decide)).withItem (by decide)
    cases decoded
  obtain ⟨last, scans, only, -, -, drained, kept⟩ :=
    Resume.drains false fate (fun _ => rfl) store keyed
  refine ⟨last, (scans _ _ _).2 ⟨by decide +kernel, rfl, rfl⟩, drained, ?_⟩
  refine (kept scrap (fun item _ _ same => ?_) fun account same => ?_).trans (by decide +kernel)
  · have length := congrArg List.length same
    simp [scrap, Items.key] at length
  · have begins := Items.not_keyStart_isPrefixOf_nonce account
    rw [← same] at begins
    cases begins

end Registrar
