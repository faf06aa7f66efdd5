import Registrar.Proofs.Item.Conduct
import Registrar.Proofs.Queue.AddedItems

/-!
Moments of a queue and the log of what was asked and answered between them. `Tick` lists what may
happen next: the work on the item in hand goes on by its conduct, the store is searched and an item
taken in hand, a new item is put under a free index, or all that is in hand is lost. `Sound.reached`
collects what holds at every moment: the store is tidy, what is in hand is what the store has, what is
to be written comes next in an item's history, and nothing is on record of what is still to be sent.
-/

namespace Registrar

open Item (Phase Status)

/-- One line of a log. -/
inductive Line where
  /-- An exchange in the work on the item with an index, over the store as it was before. -/
  | work (index : Int64) (skip : Bool) (before : Store) (exchange : Exchange)
  /-- An exchange in search of an item, or for a new one. -/
  | aside (before : Store) (exchange : Exchange)
  /-- What was in hand is lost. -/
  | died

/-- The requests on whose behalf items are stored, with the secrets drawn for them. -/
abbrev Asked : Type := ItemRequest → Secret → Prop

/-- An item as one of the requests makes it. -/
def Item.AskedFor (item : Item) (asked : Asked) : Prop :=
  item.Fits ∧ ∃ secret now request, asked request secret ∧
    item = Item.ofRequest item.index secret now request

theorem Item.AskedFor.new {item : Item} {asked : Asked} (h : item.AskedFor asked) : item.New := by
  obtain ⟨fits, secret, now, request, _, same⟩ := h
  exact ⟨fits, secret, now, request, same⟩

/-- A queue between two exchanges. -/
structure Moment where
  ground : Ground
  /-- Whether the item in hand is to be completed without a look at the chain. -/
  skip : Bool
  stage : Stage
  /-- An item that is about to be put under an index seen to be free. -/
  desk : Option Item

/-- What may happen in search of an item: the store is read, and an item in it may be taken. -/
inductive Search : Passes Stage where
  | look {g stage} {request : Work.Request} {answer : request.Answer} :
      request.reads = true → stage.Rests → Search g stage ⟨request, answer⟩ g stage
  | take {g stage key record item} {request : Work.Request} {answer : request.Answer} :
      request.reads = true → stage.Rests → g.store.get? key = some record →
      Items.keyStart.isPrefixOf key = true → Item.layout.decode record = .ok item →
      Search g stage ⟨request, answer⟩ g (.held item none)

/-- What may happen to a new item: it is put under an index that was seen to be free, or not. -/
inductive Lodge (asked : Asked) : Passes (Option Item) where
  | look {g desk} {request : Work.Request} {answer : request.Answer} :
      request.reads = true → Lodge asked g desk ⟨request, answer⟩ g desk
  | see {g desk item} {request : Work.Request} {answer : request.Answer} :
      request.reads = true → item.AskedFor asked → g.store.contains (Items.key item.index) = false →
      Lodge asked g desk ⟨request, answer⟩ g (some item)
  | insert {g item} :
      Lodge asked g (some item)
        ⟨.store (.put (Items.key item.index) (Items.encode item)), .ok ()⟩ (g.withItem item) none
  | miss {g item error} :
      Lodge asked g (some item)
        ⟨.store (.put (Items.key item.index) (Items.encode item)), .error error⟩ g none

/-- What may happen next, with what the log gets of it. -/
inductive Tick (s : Surroundings) (asked : Asked) : Moment → List Line → Moment → Prop where
  | work {m : Moment} {item exchange stage g} :
      m.stage.item = some item → Conducts m.skip m.stage exchange stage →
      s.Replies m.ground exchange.request exchange.answer g →
      g.store = exchange.on m.ground.store →
      Tick s asked m [.work item.index m.skip m.ground.store exchange]
        { m with ground := g, stage := stage }
  | search {m : Moment} {exchange stage} :
      Search m.ground m.stage exchange m.ground stage →
      Tick s asked m [.aside m.ground.store exchange] { m with stage := stage }
  | lodge {m : Moment} {exchange g desk} :
      Lodge asked m.ground m.desk exchange g desk →
      Tick s asked m [.aside m.ground.store exchange] { m with ground := g, desk := desk }
  | die {m : Moment} {desk} :
      desk = m.desk ∨ desk = none →
      Tick s asked m [.died] { m with stage := .idle, desk := desk }
  | leave {m : Moment} : Tick s asked m [] { m with desk := none }
  | begin {m : Moment} {skip} : m.stage.Rests → Tick s asked m [] { m with skip := skip }

theorem Tick.lines_cases {s : Surroundings} {asked : Asked} {m m' : Moment} {lines : List Line}
    (tick : Tick s asked m lines m') : lines = [] ∨ ∃ line, lines = [line] := by
  cases tick with
  | work | search | lodge | die => exact .inr ⟨_, rfl⟩
  | leave | begin => exact .inl rfl

/-- A moment that another one may come to, with what the log got on the way. -/
inductive Reached (s : Surroundings) (asked : Asked) (first : Moment) : List Line → Moment → Prop where
  | here : Reached s asked first [] first
  | tick {log m lines m'} :
      Reached s asked first log m → Tick s asked m lines m' → Reached s asked first (log ++ lines) m'

theorem Reached.trans {s : Surroundings} {asked : Asked} {first mid last : Moment}
    {log later : List Line} (before : Reached s asked first log mid)
    (after : Reached s asked mid later last) : Reached s asked first (log ++ later) last := by
  induction after with
  | here => rwa [List.append_nil]
  | tick _ tick ih =>
    rw [← List.append_assoc]
    exact .tick ih tick

/-- The moment at which nothing is stored and nothing in hand. -/
def Moment.start (ledger : Ledger) : Moment := ⟨⟨.empty, ledger⟩, false, .idle, none⟩

/-- The status of an item whose transaction of a phase was sent. -/
def Item.Phase.sentStatus : Phase → Status
  | .commit => .commitSent
  | .register => .registerSent
  | .renew => .renewSent

namespace Item

/-- A transaction of a phase was sent: its hash and its nonce are on record now. The status and the date
are new as well, and every other field stays as it was. -/
structure Sends (item : Item) (phase : Phase) (next : Item) : Prop where
  hash : (next.sent phase).hash.isSome = true
  nonce : (next.sent phase).nonce.isSome = true
  others : ∀ other, other ≠ phase → next.sent other = item.sent other
  fields : { item with
    status := next.status, dateModified := next.dateModified
    commitTx := next.commitTx, registerTx := next.registerTx, renewTx := next.renewTx } = next

theorem Sends.kind {item next : Item} {phase : Phase} (h : item.Sends phase next) :
    next.kind = item.kind := by
  rw [← h.fields]

theorem Sends.origin {item next : Item} {phase : Phase} (h : item.Sends phase next) :
    next.origin = item.origin := by
  rw [← h.fields]
  rfl

theorem sends_record (item : Item) (tx : TxHandle) (phase : Phase) (status : Status) (date : UInt64) :
    item.Sends phase { item.record tx phase with status, dateModified := date } := by
  cases phase with
  | commit | register | renew =>
    refine ⟨rfl, rfl, fun other apart => ?_, rfl⟩
    cases other <;> first | rfl | exact absurd rfl apart

/-- What may be stored in the place of an item. -/
inductive Advances (skip : Bool) (item : Item) : Item → Prop where
  /-- A transaction of a phase that nothing was on record of was sent. -/
  | sent {phase next} :
      item.sending = some phase → item.sent phase = .nothing → item.Sends phase next →
      Status.onSuccess item.kind item.status = some next.status → Advances skip item next
  /-- The transaction waited for took effect. -/
  | confirmed {phase next date} :
      item.awaited = some phase → Status.onSuccess item.kind item.status = some next →
      Advances skip item { item with status := next, dateModified := date }
  | failed {date} :
      item.status.isTerminal = false →
      Advances skip item
        { item with status := Status.onFailure item.kind item.status, dateModified := date }
  | skipped {date} :
      skip = true → item.status.isTerminal = false →
      Advances skip item { item with status := .completed, dateModified := date }

/-- Nothing is on record of what is still to be sent. -/
def Neat (item : Item) : Prop :=
  ∀ phase : Phase, phase.sentStatus ∈ Status.ahead item.kind item.status → item.sent phase = .nothing

theorem ahead_of_sending {item : Item} {phase : Phase} (sends : item.sending = some phase) :
    ∃ rest, Status.ahead item.kind item.status = phase.sentStatus :: rest ∧
      phase.sentStatus ∉ rest := by
  unfold sending at sends
  split at sends
  · rename_i kind status
    cases sends
    rw [kind, status]
    exact ⟨_, rfl, by decide⟩
  · rename_i kind status
    cases sends
    rw [kind, status]
    exact ⟨_, rfl, by decide⟩
  · rename_i kind status
    cases sends
    rw [kind, status]
    exact ⟨_, rfl, by decide⟩
  · cases sends

theorem ahead_of_awaited {item : Item} {phase : Phase} (waits : item.awaited = some phase) :
    ∃ next rest, Status.ahead item.kind item.status = next :: rest := by
  unfold awaited at waits
  split at waits
  · rename_i kind status; rw [kind, status]; exact ⟨_, _, rfl⟩
  · rename_i kind status; rw [kind, status]; exact ⟨_, _, rfl⟩
  · rename_i kind status; rw [kind, status]; exact ⟨_, _, rfl⟩
  · cases waits

theorem ahead_of_onSuccess {item : Item} {next : Status}
    (h : Status.onSuccess item.kind item.status = some next) :
    ∃ rest, Status.ahead item.kind item.status = next :: rest := by
  unfold Status.onSuccess at h
  exact ⟨_, (List.cons_head?_tail h).symm⟩

theorem ahead_of_terminal {kind : Kind} {status : Status} (terminal : status.isTerminal = true) :
    Status.ahead kind status = [] := by
  cases kind <;> cases status <;> first | rfl | cases terminal

theorem live_of_ahead {kind : Kind} {status next : Status} {rest : List Status}
    (h : Status.ahead kind status = next :: rest) : status.isTerminal = false := by
  cases terminal : status.isTerminal with
  | false => rfl
  | true =>
    rw [ahead_of_terminal terminal] at h
    cases h

variable {skip : Bool} {item next : Item}

/-- An item at rest is never replaced. -/
theorem Advances.live (advances : item.Advances skip next) : item.status.isTerminal = false := by
  cases advances with
  | sent _ _ _ first | confirmed _ first =>
    obtain ⟨rest, ahead⟩ := ahead_of_onSuccess first
    exact live_of_ahead ahead
  | failed live | skipped _ live => exact live

theorem Advances.origin (advances : item.Advances skip next) : next.origin = item.origin := by
  cases advances with
  | sent _ _ noted => exact noted.origin
  | confirmed | failed | skipped => rfl

theorem Advances.index (advances : item.Advances skip next) : next.index = item.index :=
  index_eq_of_origin advances.origin

theorem Advances.fits (advances : item.Advances skip next) (fits : item.Fits) : next.Fits :=
  (fits_iff_of_origin advances.origin).2 fits

theorem New.neat (new : item.New) : item.Neat := fun phase _ => new.fresh.2 phase

theorem Advances.neat (advances : item.Advances skip next) (neat : item.Neat) : next.Neat := by
  cases advances with
  | @sent phase next sends clean noted first =>
    obtain ⟨rest, ahead, once⟩ := ahead_of_sending sends
    have same : phase.sentStatus = next.status := by
      unfold Status.onSuccess at first
      rw [ahead] at first
      exact Option.some.inj first
    intro other there
    have later : other.sentStatus ∈ rest := by
      have kept := Status.ahead_next ahead
      rw [same] at kept
      rwa [noted.kind, kept] at there
    have apart : other ≠ phase := by
      rintro rfl
      exact once later
    refine Eq.trans ?_ (neat other (ahead ▸ List.mem_cons_of_mem _ later))
    exact noted.others other apart
  | confirmed _ first =>
    obtain ⟨rest, ahead⟩ := ahead_of_onSuccess first
    intro other there
    dsimp only at there
    rw [Status.ahead_next ahead] at there
    exact neat other (ahead ▸ List.mem_cons_of_mem _ there)
  | failed =>
    intro other there
    dsimp only at there
    rw [ahead_of_terminal (Status.isTerminal_onFailure _ _)] at there
    cases there
  | skipped =>
    intro other there
    dsimp only at there
    rw [ahead_of_terminal rfl] at there
    cases there

theorem Neat.sending (neat : item.Neat) {phase : Phase} (sends : item.sending = some phase) :
    item.sent phase = .nothing := by
  obtain ⟨rest, ahead, _⟩ := ahead_of_sending sends
  exact neat phase (ahead ▸ List.mem_cons_self)

end Item

/-- What is due to be written comes next in the history of the item. -/
theorem Stage.Due.advances {skip : Bool} {stage : Stage} {item written : Item}
    (due : Due skip stage item written) (neat : item.Neat) (date : UInt64) :
    item.Advances skip (written.dated date) := by
  cases due with
  | failed live => exact .failed live
  | skipped on live => exact .skipped on live
  | @sent _ phase tx sends =>
    obtain ⟨rest, ahead, _⟩ := Item.ahead_of_sending sends
    have first : Status.onSuccess item.kind item.status = some phase.sentStatus := by
      unfold Status.onSuccess
      rw [ahead]
      rfl
    have first' : Status.onSuccess (item.record tx phase).kind (item.record tx phase).status =
        some phase.sentStatus := by
      rw [Item.kind_record, Item.status_record, first]
    rw [Processor.advanced_eq first']
    exact .sent sends (neat.sending sends) (Item.sends_record item tx phase _ date) first
  | noted waits =>
    obtain ⟨next, rest, ahead⟩ := Item.ahead_of_awaited waits
    have first : Status.onSuccess item.kind item.status = some next := by
      unfold Status.onSuccess
      rw [ahead]
      rfl
    rw [Processor.advanced_eq first]
    exact .confirmed waits first

section

variable {skip : Bool} {stage stage' : Stage} {exchange : Exchange} {item item' : Item}

/-- What the work on an item comes to: nothing in the store changes and the item in hand stays, or the
nonce after the transaction that took effect is noted, or the item is replaced by the one that was to
be written. -/
theorem Conducts.comes_to (conducts : Conducts skip stage exchange stage') :
    (exchange.put? = none ∧ (∀ store, exchange.on store = store) ∧
        (stage'.item = none ∨ stage'.item = stage.item)) ∨
      (∃ item tx, stage = .mined item tx ∧ stage' = .noted item ∧
        exchange = ⟨.store (.put (Nonce.key tx.sender)
          (Nonce.Record.layout.write ⟨tx.sender, saturatingAdd tx.nonce 1⟩)), .ok ()⟩) ∨
      (∃ item written, stage = .writing item written ∧ stage' = .held written none ∧
        exchange = ⟨.store (.put (Items.key item.index) (Items.encode written)), .ok ()⟩) := by
  cases conducts with
  | opens | promise => exact .inl ⟨rfl, fun _ => rfl, .inr rfl⟩
  | @commit _ _ _ _ _ answer | @register _ _ _ _ _ answer | @renew _ _ _ _ answer
  | @find _ _ _ _ _ answer =>
    rcases answer with error | tx <;> exact .inl ⟨rfl, fun _ => rfl, .inr rfl⟩
  | @await _ _ _ answer =>
    rcases answer with error | _ | _ <;> exact .inl ⟨rfl, fun _ => rfl, .inr rfl⟩
  | @note item tx answer =>
    rcases answer with error | ⟨⟩
    · exact .inl ⟨rfl, fun _ => rfl, .inl rfl⟩
    · exact .inr (.inl ⟨item, tx, rfl, rfl, rfl⟩)
  | date due => cases due <;> exact .inl ⟨rfl, fun _ => rfl, .inr rfl⟩
  | @check item written answer =>
    rcases answer with error | _ | _
    · exact .inl ⟨rfl, fun _ => rfl, .inl rfl⟩
    · exact .inl ⟨rfl, fun _ => rfl, .inl rfl⟩
    · exact .inl ⟨rfl, fun _ => rfl, .inr rfl⟩
  | @write item written answer =>
    rcases answer with error | ⟨⟩
    · exact .inl ⟨rfl, fun _ => rfl, .inl rfl⟩
    · exact .inr (.inr ⟨item, written, rfl, rfl, rfl⟩)

theorem Search.ground {g g' : Ground} (search : Search g stage exchange g' stage') : g' = g := by
  cases search <;> rfl

end

/-- What holds at every moment. -/
structure Moment.Sound (asked : Asked) (m : Moment) : Prop where
  tidy : Items.Tidy m.ground.store
  neat : ∀ item, Items.Holds m.ground.store item → item.Neat
  stage : ∀ item, m.stage.item = some item → Items.Holds m.ground.store item
  writing : ∀ item written, m.stage = .writing item written → item.Advances m.skip written
  desk : ∀ item, m.desk = some item →
    item.AskedFor asked ∧ m.ground.store.contains (Items.key item.index) = false

theorem Items.Holds.contains {store : Store} {item : Item} (held : Holds store item) :
    store.contains (key item.index) = true := by
  unfold Store.contains
  rw [held.2]
  rfl

theorem Store.withItem_eq {store : Store} {item written : Item} (same : written.index = item.index) :
    store.put (Items.key item.index) (Items.encode written) = store.withItem written := by
  rw [← same]
  rfl

theorem Search.to_rests {g g' : Ground} {stage stage' : Stage} {exchange : Exchange}
    (search : Search g stage exchange g' stage') :
    stage.Rests ∧ (stage' = stage ∨ ∃ item, stage' = .held item none) := by
  cases search with
  | look _ rests => exact ⟨rests, .inl rfl⟩
  | take _ rests => exact ⟨rests, .inr ⟨_, rfl⟩⟩

theorem Stage.Rests.not_writing {stage : Stage} (rests : stage.Rests) (item written : Item) :
    stage ≠ .writing item written := by
  rcases rests with rfl | ⟨_, _, rfl⟩ <;> exact fun absent => nomatch absent

namespace Moment

variable {s : Surroundings} {asked : Asked} {m m' : Moment} {lines log : List Line}

theorem sound_start (ledger : Ledger) : (start ledger).Sound asked where
  tidy := Items.tidy_empty
  neat _ held := nomatch held.2
  stage _ absent := nomatch absent
  writing _ _ absent := nomatch absent
  desk _ absent := nomatch absent

/-- The work on an item keeps what holds at every moment. -/
theorem Sound.work (sound : m.Sound asked) {exchange : Exchange} {stage : Stage} {g : Ground}
    (conducts : Conducts m.skip m.stage exchange stage) (on : g.store = exchange.on m.ground.store) :
    Sound asked { m with ground := g, stage := stage } := by
  have writing : ∀ item written, stage = .writing item written → item.Advances m.skip written := by
    intro item written toWrite
    have entered := conducts.entered
    rw [toWrite] at entered
    rcases entered with before | ⟨due, date, isDue, rfl⟩
    · exact sound.writing item written before
    · exact isDue.advances (sound.neat item (sound.stage item (Stage.item_of_due isDue))) date
  rcases conducts.comes_to with
    ⟨_, same, hand⟩ | ⟨item, tx, before, after, rfl⟩ | ⟨item, written, before, after, rfl⟩
  · rw [same] at on
    refine ⟨on ▸ sound.tidy, on ▸ sound.neat, fun item' there => ?_, writing, on ▸ sound.desk⟩
    rcases hand with none | kept
    · rw [none] at there
      cases there
    · exact on ▸ sound.stage item' (kept ▸ there)
  · have on : g.store = m.ground.store.withNonce ⟨tx.sender, saturatingAdd tx.nonce 1⟩ := on
    refine ⟨on ▸ Items.tidy_withNonce sound.tidy, fun other held => ?_, fun item' there => ?_, writing,
      fun item' there => ?_⟩
    · exact sound.neat other (Items.holds_withNonce.1 (on ▸ held))
    · rw [after] at there
      cases there
      exact on ▸ Items.holds_withNonce.2 (sound.stage item (before ▸ rfl))
    · obtain ⟨asks, free⟩ := sound.desk item' there
      refine ⟨asks, ?_⟩
      dsimp only
      rw [on, Store.withNonce, Store.contains_put, free, decide_eq_false (Items.key_ne_nonce _ _)]
      rfl
  · have advances := sound.writing item written before
    have held : Items.Holds m.ground.store item := sound.stage item (before ▸ rfl)
    have fits := advances.fits held.1
    have on : g.store = m.ground.store.withItem written :=
      on.trans (Store.withItem_eq advances.index)
    refine ⟨on ▸ Items.tidy_withItem sound.tidy fits, fun other there => ?_, fun item' there => ?_,
      writing, fun item' there => ?_⟩
    · rcases (Items.holds_withItem fits).1 (on ▸ there) with rfl | ⟨_, there⟩
      · exact advances.neat (sound.neat item held)
      · exact sound.neat other there
    · rw [after] at there
      cases there
      exact on ▸ (Items.holds_withItem fits).2 (.inl rfl)
    · obtain ⟨asks, free⟩ := sound.desk item' there
      have apart : Items.key item'.index ≠ Items.key written.index := by
        intro same
        rw [same, advances.index, held.contains] at free
        cases free
      refine ⟨asks, ?_⟩
      dsimp only
      rw [on, Store.withItem, Store.contains_put, free, decide_eq_false apart]
      rfl

/-- The item in hand stays the same one in the course of the work on it. -/
theorem Sound.index (sound : m.Sound asked) {exchange : Exchange} {stage : Stage} {item item' : Item}
    (conducts : Conducts m.skip m.stage exchange stage) (before : m.stage.item = some item)
    (after : stage.item = some item') : item'.index = item.index := by
  rcases conducts.comes_to with
    ⟨_, _, none | kept⟩ | ⟨held, tx, mined, noted, _⟩ | ⟨held, written, writing, rfl, _⟩
  · rw [none] at after
    cases after
  · rw [kept, before] at after
    cases after
    rfl
  · rw [mined] at before
    rw [noted] at after
    cases before
    cases after
    rfl
  · have advances := sound.writing _ _ writing
    rw [writing] at before
    cases before
    cases after
    exact advances.index

/-- A search keeps what holds at every moment, and takes an item as the store has it. -/
theorem Sound.search (sound : m.Sound asked) {exchange : Exchange} {stage : Stage}
    (search : Search m.ground m.stage exchange m.ground stage) : Sound asked { m with stage := stage } := by
  have rests : stage.Rests := by
    cases search with
    | look _ rests => exact rests
    | take => exact .inr ⟨_, _, rfl⟩
  refine ⟨sound.tidy, sound.neat, fun item' hand => ?_,
    fun item written toWrite => absurd toWrite (rests.not_writing item written), sound.desk⟩
  cases search with
  | look => exact sound.stage item' hand
  | take _ _ there begins decoded =>
    cases hand
    obtain ⟨other, held, rfl⟩ := sound.tidy _ _ there begins
    rw [held.2] at there
    cases there
    rw [Items.decode_encode held.1] at decoded
    cases decoded
    exact held

theorem Sound.clear (sound : m.Sound asked) : Sound asked { m with desk := none } :=
  ⟨sound.tidy, sound.neat, sound.stage, sound.writing, fun _ absent => by cases absent⟩

/-- A new item on its way into the store keeps what holds at every moment. -/
theorem Sound.lodge (sound : m.Sound asked) {exchange : Exchange} {g : Ground} {desk desk' : Option Item}
    (before : m.desk = desk) (lodge : Lodge asked m.ground desk exchange g desk') :
    Sound asked { m with ground := g, desk := desk' } := by
  cases lodge with
  | look => exact ⟨sound.tidy, sound.neat, sound.stage, sound.writing, before ▸ sound.desk⟩
  | see _ asks free =>
    refine ⟨sound.tidy, sound.neat, sound.stage, sound.writing, fun item there => ?_⟩
    cases there
    exact ⟨asks, free⟩
  | miss => exact sound.clear
  | @insert _ item =>
    obtain ⟨asks, free⟩ := sound.desk item before
    have new := asks.new
    refine ⟨Items.tidy_withItem sound.tidy new.1, fun other there => ?_, fun other there => ?_,
      sound.writing, fun _ absent => by cases absent⟩
    · rcases (Items.holds_withItem new.1).1 there with rfl | ⟨_, there⟩
      · exact new.neat
      · exact sound.neat other there
    · have held := sound.stage other there
      refine (Items.holds_withItem new.1).2 (.inr ⟨fun same => ?_, held⟩)
      rw [← same, held.contains] at free
      cases free

/-- Whatever happens keeps what holds at every moment. -/
theorem Sound.tick (sound : m.Sound asked) (tick : Tick s asked m lines m') : m'.Sound asked := by
  cases tick with
  | work hand conducts replies on => exact sound.work conducts on
  | search search => exact sound.search search
  | lodge lodge => exact sound.lodge rfl lodge
  | die kept =>
    refine ⟨sound.tidy, sound.neat, fun _ absent => (by cases absent),
      fun _ _ absent => (by cases absent), fun item there => ?_⟩
    rcases kept with rfl | rfl
    · exact sound.desk item there
    · cases there
  | leave => exact sound.clear
  | begin rests =>
    exact ⟨sound.tidy, sound.neat, sound.stage,
      fun item written toWrite => absurd toWrite (rests.not_writing item written), sound.desk⟩

theorem Sound.reached (sound : m.Sound asked) (reached : Reached s asked m log m') :
    m'.Sound asked := by
  induction reached with
  | here => exact sound
  | tick _ tick ih => exact ih.tick tick

/-- What every tick keeps of a log and a moment holds of all that are reached. -/
theorem Sound.invariant (holds : List Line → Moment → Prop) (sound : m.Sound asked)
    (start : holds [] m)
    (kept : ∀ {log m lines m'}, m.Sound asked → holds log m → Tick s asked m lines m' →
      holds (log ++ lines) m')
    (reached : Reached s asked m log m') : holds log m' := by
  induction reached with
  | here => exact start
  | tick before tick ih => exact kept (sound.reached before) ih tick

end Moment

/-- Every line of a log fits the lines before it. -/
def EachLine (fits : List Line → Line → Prop) (log : List Line) : Prop :=
  ∀ past line future, log = past ++ line :: future → fits past line

namespace EachLine

variable {fits : List Line → Line → Prop} {log : List Line} {line : Line}

theorem nil : EachLine fits [] := by
  intro past line future same
  cases past <;> cases same

theorem concat (each : EachLine fits log) (new : fits log line) : EachLine fits (log ++ [line]) := by
  intro past other future same
  rcases List.eq_nil_or_concat future with rfl | ⟨future, last, rfl⟩
  · obtain ⟨before, now⟩ := List.append_inj' same rfl
    cases now
    exact before ▸ new
  · rw [List.concat_eq_append, ← List.cons_append, ← List.append_assoc] at same
    exact each past other future (List.append_inj' same rfl).1

theorem of_concat (each : EachLine fits (log ++ [line])) : EachLine fits log ∧ fits log line := by
  refine ⟨fun past other future same => ?_, each log line [] rfl⟩
  refine each past other (future ++ [line]) ?_
  rw [same, List.append_assoc]
  rfl

end EachLine

end Registrar
