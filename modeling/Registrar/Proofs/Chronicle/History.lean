import Mathlib.Data.List.Chain
import Registrar.Proofs.Chronicle

/-!
The history of an item: the records that were put under its index one after the other. It begins with
the item of a request, each later record comes next after the one before it, and none follows one at
rest; the work on an item touches nothing else but the nonce after a transaction that took effect. What
a client is told of an item at rest therefore stays as it is (`item_history`).
-/

namespace Registrar

open Item (Status)

/-- The record that an exchange put under an index, if it put one there. -/
def Exchange.stored (index : Int64) (exchange : Exchange) : Option Bytes :=
  exchange.put?.bind fun (key, record) => if key = Items.key index then some record else none

/-- The record that was put under an index, and whether its writer skips the chain. -/
def Line.stored (index : Int64) : Line → Option (Bool × Bytes)
  | .work _ skip _ exchange => (exchange.stored index).map (skip, ·)
  | .aside _ exchange => (exchange.stored index).map (false, ·)
  | .died => none

/-- The records that were put under an index, one after the other. -/
def records (index : Int64) (log : List Line) : List (Bool × Bytes) := log.filterMap (Line.stored index)

/-- The last exchange in the work on an item, with the index of the item. -/
def lastWork (log : List Line) : Option (Int64 × Exchange) :=
  (log.filterMap fun
    | .work index _ _ exchange => some (index, exchange)
    | .aside _ _ | .died => none).getLast?

/-- Whether an exchange deletes no record, and changes only those under the allowed keys. -/
def Exchange.Confined (exchange : Exchange) (before : Store) (allowed : Bytes → Prop) : Prop :=
  (∀ key, before.contains key = true → (exchange.on before).contains key = true) ∧
    ∀ key, (exchange.on before).get? key ≠ before.get? key → allowed key

/-- What a line may change in the store, after the lines before it: the work on an item touches its own
record, or the nonce of the sender of a transaction that was just seen to take effect; all else touches
only what was free. -/
def Line.Confined (past : List Line) : Line → Prop
  | .work index _ before exchange => exchange.Confined before fun key =>
    key = Items.key index ∨ ∃ connection tx, key = Nonce.key tx.sender ∧
      lastWork past = some (index, ⟨.gateway (.awaitMined connection tx), .ok true⟩)
  | .aside before exchange => exchange.Confined before fun key => before.contains key = false
  | .died => True

section

variable {s : Surroundings} {asked : Asked} {m m' : Moment} {lines log : List Line} {index : Int64}

theorem Exchange.stored_none {exchange : Exchange} (silent : exchange.put? = none) (index : Int64) :
    exchange.stored index = none := by
  rw [stored, silent]
  rfl

/-- A request that can change nothing puts nothing into the store. -/
theorem Exchange.of_reads {request : Work.Request} {answer : request.Answer}
    (reads : request.reads = true) :
    Exchange.put? ⟨request, answer⟩ = none ∧
      ∀ store : Store, Exchange.on ⟨request, answer⟩ store = store := by
  unfold Work.Request.reads at reads
  split at reads
  · exact ⟨rfl, fun _ => rfl⟩
  · exact ⟨rfl, fun _ => by rcases answer with error | value <;> rfl⟩
  · exact ⟨rfl, fun _ => by rcases answer with error | value <;> rfl⟩
  · exact ⟨rfl, fun _ => by rcases answer with error | value <;> rfl⟩
  · exact ⟨rfl, fun _ => by rcases answer with error | value <;> rfl⟩
  · cases reads

theorem get?_withItem_other {store : Store} {item : Item} (apart : item.index ≠ index) :
    (store.withItem item).get? (Items.key index) = store.get? (Items.key index) := by
  unfold Store.withItem
  rw [Store.get?_put, if_neg fun same => apart (Items.key_inj same).symm]

/-- What one tick puts under an index: nothing, the item that comes next after the one there, or the
item of a request where none was. -/
theorem Tick.stores (tick : Tick s asked m lines m') (sound : m.Sound asked) (index : Int64) :
    (records index lines = [] ∧
      m'.ground.store.get? (Items.key index) = m.ground.store.get? (Items.key index)) ∨
    (∃ item written, m.stage = .writing item written ∧ item.index = index ∧
      records index lines = [(m.skip, Items.encode written)] ∧
      m'.ground.store = m.ground.store.withItem written) ∨
    (∃ item, item.AskedFor asked ∧ item.index = index ∧
      m.ground.store.get? (Items.key index) = none ∧
      records index lines = [(false, Items.encode item)] ∧
      m'.ground.store = m.ground.store.withItem item) := by
  cases tick with
  | @work item exchange stage g hand conducts replies on =>
    rcases conducts.comes_to with
      ⟨silent, same, _⟩ | ⟨item, tx, before, after, rfl⟩ | ⟨item, written, before, after, rfl⟩
    · refine .inl ⟨?_, by rw [on, same]⟩
      simp [records, Line.stored, Exchange.stored_none silent]
    · have apart : ¬ Nonce.key tx.sender = Items.key index := (Items.key_ne_nonce _ _).symm
      refine .inl ⟨?_, ?_⟩
      · simp [records, Line.stored, Exchange.stored, Exchange.put?, apart]
      · rw [on]
        exact (Store.get?_put _ _ _ _).trans (if_neg (Ne.symm apart))
    · have advances := sound.writing item written before
      have on : g.store = m.ground.store.withItem written :=
        on.trans (Store.withItem_eq advances.index)
      by_cases own : item.index = index
      · refine .inr (.inl ⟨item, written, before, own, ?_, on⟩)
        simp [records, Line.stored, Exchange.stored, Exchange.put?, own]
      · have apart : ¬ Items.key item.index = Items.key index := fun same => own (Items.key_inj same)
        refine .inl ⟨?_, ?_⟩
        · simp [records, Line.stored, Exchange.stored, Exchange.put?, apart]
        · rw [on]
          exact get?_withItem_other (advances.index ▸ own)
  | @search exchange stage search =>
    refine .inl ⟨?_, rfl⟩
    have silent : exchange.put? = none := by
      cases search with
      | look reads | take reads => exact (Exchange.of_reads reads).1
    simp [records, Line.stored, Exchange.stored_none silent]
  | @lodge exchange g desk lodge =>
    have facts := sound.desk
    generalize m.desk = before at lodge facts
    cases lodge with
    | look reads | see reads =>
      exact .inl ⟨by simp [records, Line.stored, Exchange.stored_none (Exchange.of_reads reads).1], rfl⟩
    | miss => exact .inl ⟨rfl, rfl⟩
    | @insert _ item =>
      obtain ⟨asks, free⟩ := facts item rfl
      by_cases own : item.index = index
      · refine .inr (.inr ⟨item, asks, own, ?_, ?_, rfl⟩)
        · rw [← own]
          exact Option.not_isSome_iff_eq_none.1 (ne_true_of_eq_false free)
        · simp [records, Line.stored, Exchange.stored, Exchange.put?, own]
      · have apart : ¬ Items.key item.index = Items.key index := fun same => own (Items.key_inj same)
        refine .inl ⟨?_, get?_withItem_other own⟩
        simp [records, Line.stored, Exchange.stored, Exchange.put?, apart]
  | die | leave | begin => exact .inl ⟨rfl, rfl⟩

/-- A history under an index: it begins with the item of a request, each item comes next after the one
before it, and none follows one at rest. -/
structure Item.Path (asked : Asked) (index : Int64) (history : List (Bool × Item)) : Prop where
  first : ∀ entry ∈ history.head?, entry.2.AskedFor asked ∧ entry.2.index = index
  next : history.IsChain fun before after =>
    before.2.status.isTerminal = false ∧ before.2.Advances after.1 after.2

/-- A history as the log and the store have it. -/
structure Item.Told (asked : Asked) (index : Int64) (log : List Line) (store : Store)
    (history : List (Bool × Item)) : Prop where
  path : Item.Path asked index history
  logged : records index log = history.map fun entry => (entry.1, Items.encode entry.2)
  stored : store.get? (Items.key index) = history.getLast?.map fun entry => Items.encode entry.2
  last : ∀ entry ∈ history.getLast?, Items.Holds store entry.2 ∧ entry.2.index = index

theorem Item.Path.concat {history : List (Bool × Item)} {entry : Bool × Item}
    (path : Item.Path asked index history)
    (begins : history = [] → entry.2.AskedFor asked ∧ entry.2.index = index)
    (follows : ∀ last ∈ history.getLast?, last.2.Advances entry.1 entry.2) :
    Item.Path asked index (history ++ [entry]) where
  first other there := by
    cases history with
    | nil =>
      cases there
      exact begins rfl
    | cons head rest => exact path.first other there
  next := by
    refine List.isChain_append.2 ⟨path.next, List.isChain_singleton _, fun last there other same => ?_⟩
    cases same
    exact ⟨(follows last there).live, follows last there⟩

/-- One tick makes the history of an item one record longer, or leaves it as it is. -/
theorem Item.Told.tick {history : List (Bool × Item)}
    (told : Item.Told asked index log m.ground.store history) (sound : m.Sound asked)
    (tick : Tick s asked m lines m') :
    ∃ history', Item.Told asked index (log ++ lines) m'.ground.store history' := by
  have split : records index (log ++ lines) = records index log ++ records index lines :=
    List.filterMap_append
  have sound' := sound.tick tick
  rcases tick.stores sound index with ⟨silent, same⟩ |
    ⟨item, written, before, own, line, put⟩ | ⟨item, asks, own, free, line, put⟩
  · refine ⟨history, told.path, ?_, same.trans told.stored, fun entry there => ?_⟩
    · rw [split, silent, List.append_nil, told.logged]
    · obtain ⟨⟨fits, record⟩, own⟩ := told.last entry there
      rw [own] at record
      refine ⟨⟨fits, ?_⟩, own⟩
      rw [own, same, record]
  · have held := sound.stage item (before ▸ rfl)
    have advances := sound.writing item written before
    have last : ∀ entry ∈ history.getLast?, entry.2 = item := by
      intro entry there
      obtain ⟨held', own'⟩ := told.last entry there
      exact Items.holds_inj held' held (own'.trans own.symm)
    have some : history ≠ [] := by
      rintro rfl
      have absent : m.ground.store.get? (Items.key index) = none := told.stored
      rw [← own, held.2] at absent
      cases absent
    have holds : Items.Holds m'.ground.store written := by
      rw [put]
      exact (Items.holds_withItem (advances.fits held.1)).2 (.inl rfl)
    have index' : written.index = index := advances.index.trans own
    refine ⟨history ++ [(m.skip, written)], ?_, ?_, ?_, ?_⟩
    · refine told.path.concat (fun none => absurd none some) fun entry there => ?_
      rw [last entry there]
      exact advances
    · rw [split, line, told.logged, List.map_append]
      rfl
    · rw [List.getLast?_concat, ← index', holds.2]
      rfl
    · intro entry there
      rw [List.getLast?_concat] at there
      cases there
      exact ⟨holds, index'⟩
  · have none : history = [] := by
      rw [told.stored, Option.map_eq_none_iff, List.getLast?_eq_none_iff] at free
      exact free
    have holds : Items.Holds m'.ground.store item := by
      rw [put]
      exact (Items.holds_withItem asks.1).2 (.inl rfl)
    subst none
    refine ⟨[(false, item)], ⟨fun entry there => ?_, List.isChain_singleton _⟩, ?_, ?_, ?_⟩
    · cases there
      exact ⟨asks, own⟩
    · rw [split, line, told.logged]
      rfl
    · rw [← own, holds.2]
      rfl
    · intro entry there
      cases there
      exact ⟨holds, own⟩

theorem Item.told_empty : Item.Told asked index [] .empty [] where
  path := ⟨fun _ absent => (by cases absent), .nil⟩
  logged := rfl
  stored := rfl
  last _ absent := by cases absent

theorem Item.told_reached {ledger : Ledger} (reached : Reached s asked (.start ledger) log m)
    (index : Int64) : ∃ history, Item.Told asked index log m.ground.store history := by
  let holds (log : List Line) (m : Moment) :=
    ∃ history, Item.Told asked index log m.ground.store history
  refine Moment.Sound.invariant holds (Moment.sound_start ledger) ⟨[], Item.told_empty⟩ ?_
    reached
  rintro log m lines m' sound ⟨history, told⟩ tick
  exact told.tick sound tick

/-- An item in the store was there before, or was to be written, or is that of a request. -/
theorem Tick.holds (tick : Tick s asked m lines m') (sound : m.Sound asked) {item : Item}
    (held : Items.Holds m'.ground.store item) :
    Items.Holds m.ground.store item ∨ (∃ old, m.stage = .writing old item) ∨ item.AskedFor asked := by
  have put : ∀ {other : Item}, other.Fits → other.index = item.index →
      m'.ground.store = m.ground.store.withItem other → item = other := by
    intro other fits own put
    rw [put] at held
    exact Items.holds_inj held ((Items.holds_withItem fits).2 (.inl rfl)) own.symm
  rcases tick.stores sound item.index with ⟨_, same⟩ |
    ⟨old, written, before, own, _, stored⟩ | ⟨other, asks, own, _, _, stored⟩
  · exact .inl ⟨held.1, same.symm.trans held.2⟩
  · have advances := sound.writing old written before
    have fits := advances.fits (sound.stage old (before ▸ rfl)).1
    rw [put fits (advances.index.trans own) stored]
    exact .inr (.inl ⟨old, before⟩)
  · rw [put asks.1 own stored]
    exact .inr (.inr asks)

/-- An item that was stored stays so, as what its request made of it. -/
theorem Tick.keeps_origin (tick : Tick s asked m lines m') (sound : m.Sound asked) {item : Item}
    (held : Items.Holds m.ground.store item) :
    ∃ item', Items.Holds m'.ground.store item' ∧ item'.origin = item.origin := by
  rcases tick.stores sound item.index with ⟨_, same⟩ |
    ⟨old, written, before, own, _, stored⟩ | ⟨_, _, _, free, _⟩
  · exact ⟨item, ⟨held.1, same.trans held.2⟩, rfl⟩
  · have advances := sound.writing old written before
    have was := sound.stage old (before ▸ rfl)
    refine ⟨written, ?_, ?_⟩
    · rw [stored]
      exact (Items.holds_withItem (advances.fits was.1)).2 (.inl rfl)
    · rw [advances.origin, Items.holds_inj was held own]
  · rw [held.2] at free
    cases free

/-- An item at rest stays in the store as it is. -/
theorem Tick.keeps_terminal (tick : Tick s asked m lines m') (sound : m.Sound asked) {item : Item}
    (held : Items.Holds m.ground.store item) (terminal : item.status.isTerminal = true) :
    Items.Holds m'.ground.store item := by
  rcases tick.stores sound item.index with ⟨_, same⟩ |
    ⟨other, written, before, own, _⟩ | ⟨_, _, _, free, _⟩
  · exact ⟨held.1, same.trans held.2⟩
  · have live := (sound.writing other written before).live
    rw [Items.holds_inj (sound.stage other (before ▸ rfl)) held own, terminal] at live
    cases live
  · rw [held.2] at free
    cases free

theorem Reached.keeps_terminal (reached : Reached s asked m log m') (sound : m.Sound asked)
    {item : Item} (held : Items.Holds m.ground.store item)
    (terminal : item.status.isTerminal = true) : Items.Holds m'.ground.store item := by
  induction reached with
  | here => exact held
  | tick before tick ih => exact tick.keeps_terminal (sound.reached before) ih terminal

/-- A transaction in hand that took effect was just seen to. -/
def Moment.Seen (log : List Line) (m : Moment) : Prop :=
  ∀ item tx, m.stage = .mined item tx → ∃ connection,
    lastWork log = some (item.index, ⟨.gateway (.awaitMined connection tx), .ok true⟩)

theorem lastWork_work (log : List Line) (index : Int64) (skip : Bool) (before : Store)
    (exchange : Exchange) :
    lastWork (log ++ [.work index skip before exchange]) = some (index, exchange) := by
  unfold lastWork
  rw [List.filterMap_append]
  exact List.getLast?_concat

theorem lastWork_aside (log : List Line) (before : Store) (exchange : Exchange) :
    lastWork (log ++ [.aside before exchange]) = lastWork log := by
  unfold lastWork
  rw [List.filterMap_append]
  exact congrArg List.getLast? (List.append_nil _)

theorem Moment.Seen.tick (seen : m.Seen log) (tick : Tick s asked m lines m') :
    m'.Seen (log ++ lines) := by
  cases tick with
  | @work item exchange stage g hand conducts replies on =>
    intro other tx mined
    have entered := conducts.entered
    dsimp only at mined
    rw [mined] at entered
    obtain ⟨found, connection, rfl⟩ := entered
    rw [found] at hand
    cases hand
    exact ⟨connection, lastWork_work _ _ _ _ _⟩
  | @search exchange stage search =>
    intro other tx mined
    cases search with
    | look _ rests =>
      dsimp only at mined
      rw [mined] at rests
      rcases rests with rests | ⟨_, _, rests⟩ <;> cases rests
    | take => cases mined
  | lodge =>
    intro item tx mined
    rw [lastWork_aside]
    exact seen item tx mined
  | die => exact fun _ _ absent => by cases absent
  | leave | begin =>
    rw [List.append_nil]
    exact seen

theorem Exchange.confined_of_silent {exchange : Exchange} {before : Store}
    (silent : exchange.on before = before) (allowed : Bytes → Prop) :
    exchange.Confined before allowed := by
  unfold Confined
  rw [silent]
  exact ⟨fun _ there => there, fun _ changed => absurd rfl changed⟩

theorem Exchange.confined_put {key record : Bytes} {before : Store} {allowed : Bytes → Prop}
    (allows : allowed key) :
    Exchange.Confined ⟨.store (.put key record), .ok ()⟩ before allowed := by
  refine ⟨fun other there => ?_, fun other changed => ?_⟩
  · refine (Store.contains_put before key record other).trans ?_
    rw [there, Bool.or_true]
  · have read := Store.get?_put before key record other
    by_cases same : other = key
    · rwa [same]
    · rw [if_neg same] at read
      exact absurd read changed

/-- Every exchange keeps to what it may change. -/
theorem Tick.confined (tick : Tick s asked m lines m') (sound : m.Sound asked) (seen : m.Seen log) :
    ∀ line ∈ lines, line.Confined log := by
  cases tick with
  | @work item exchange stage g hand conducts replies on =>
    intro line there
    cases List.mem_singleton.1 there
    rcases conducts.comes_to with
      ⟨_, silent, _⟩ | ⟨held, tx, before, after, rfl⟩ | ⟨held, written, before, after, rfl⟩
    · exact Exchange.confined_of_silent (silent _) _
    · obtain ⟨connection, last⟩ := seen held tx before
      rw [before] at hand
      cases hand
      exact Exchange.confined_put (.inr ⟨connection, tx, rfl, last⟩)
    · rw [before] at hand
      cases hand
      exact Exchange.confined_put (.inl rfl)
  | @search exchange stage search =>
    intro line there
    cases List.mem_singleton.1 there
    cases search with
    | look reads | take reads => exact Exchange.confined_of_silent ((Exchange.of_reads reads).2 _) _
  | @lodge exchange g desk lodge =>
    intro line there
    cases List.mem_singleton.1 there
    have facts := sound.desk
    generalize m.desk = before at lodge facts
    cases lodge with
    | look reads | see reads => exact Exchange.confined_of_silent ((Exchange.of_reads reads).2 _) _
    | miss => exact Exchange.confined_of_silent rfl _
    | @insert _ item => exact Exchange.confined_put (facts item rfl).2
  | die =>
    intro line there
    cases List.mem_singleton.1 there
    trivial
  | leave | begin => exact fun _ absent => nomatch absent

theorem Reached.confined {ledger : Ledger} (reached : Reached s asked (.start ledger) log m) :
    EachLine Line.Confined log := by
  let holds (log : List Line) (m : Moment) := m.Seen log ∧ EachLine Line.Confined log
  have start : holds [] (.start ledger) := ⟨fun _ _ absent => (by cases absent), EachLine.nil⟩
  refine (Moment.Sound.invariant holds (Moment.sound_start ledger) start ?_ reached).2
  rintro log m lines m' sound ⟨seen, each⟩ tick
  refine ⟨seen.tick tick, ?_⟩
  have confined := tick.confined sound seen
  rcases tick.lines_cases with rfl | ⟨line, rfl⟩
  · rwa [List.append_nil]
  · exact each.concat (confined line (List.mem_singleton_self _))

end

namespace Chronicle

/-- What a client is told about the item with an index, after some events. -/
def told (index : Int64) (events : List Event) (fortune : Fortune) : Except QueueError Item.Progress :=
  ((Queue.progress index).run.runWith fortune.serve (run events).store).1

end Chronicle

/-- A look-up of what a client is told, request by request. -/
theorem Queue.run_progress (index : Int64) :
    (progress index).run = .ask (.store (.get (Items.key index))) fun
      | .error error => .done (.error (.store error))
      | .ok none => .done (.error (.itemNotFound index))
      | .ok (some record) => .done <|
        match Items.decode (Items.key index) record with
        | .ok item => .ok item.status.progress
        | .error error => .error (.store error) := by
  have unfolded : (progress index).run =
      (Work.onStore (Items.get index)).run.bind (ExceptT.bindCont _) := rfl
  rw [unfolded, Items.run_onStore_get]
  refine congrArg (Program.ask _) (funext fun answer => ?_)
  rcases answer with error | _ | record
  · rfl
  · rfl
  · dsimp only
    cases Items.decode (Items.key index) record <;> rfl

/-- A client is told the progress of the item that the store holds, unless the store fails. -/
theorem Queue.told_held (fortune : Fortune) {store : Store} {item : Item}
    (held : Items.Holds store item) :
    ((progress item.index).run.runWith fortune.serve store).1 =
      match fortune.failure with
      | some error => .error (.store error)
      | none => .ok item.status.progress := by
  rw [run_progress]
  cases failure : fortune.failure with
  | some error =>
    simp [Program.runWith, Fortune.serve, failure]
  | none =>
    simp [Program.runWith, Fortune.serve, failure, Store.serve, held.2, Items.decode,
      Items.decode_encode held.1]

/-- Whatever a client is told is the progress of an item that the store holds. -/
theorem Queue.held_of_told {fortune : Fortune} {store : Store} {index : Int64}
    {told : Item.Progress} (tidy : Items.Tidy store)
    (h : ((progress index).run.runWith fortune.serve store).1 = .ok told) :
    ∃ item, Items.Holds store item ∧ item.index = index ∧ item.status.progress = told := by
  rw [run_progress] at h
  cases failure : fortune.failure with
  | some error =>
    simp [Program.runWith, Fortune.serve, failure] at h
  | none =>
    cases there : store.get? (Items.key index) with
    | none => simp [Program.runWith, Fortune.serve, failure, Store.serve, there] at h
    | some record =>
      obtain ⟨item, held, same⟩ := tidy _ _ there (Items.keyStart_isPrefixOf_key index)
      cases Items.key_inj same
      have answer := told_held fortune held
      rw [run_progress, failure] at answer
      rw [h] at answer
      exact ⟨item, held, rfl, (Except.ok.inj answer).symm⟩

theorem Item.Status.isTerminal_of_progress {status : Status} (h : status.progress ≠ .pending) :
    status.isTerminal = true := by
  cases status <;> first | rfl | exact absurd rfl h

namespace Chronicle

/-- An event brings a request. -/
def Brought (events : List Event) : Asked := fun request secret =>
  ∃ fits, .add request fits secret ∈ events

theorem within_brought (events : List Event) : ∀ event ∈ events, event.Within (Brought events) := by
  intro event there
  cases event with
  | add request fits secret => exact ⟨fits, there⟩
  | _ => trivial

/-- In every chronicle, the records put under an index one after the other are a path of the table of
transitions, from the item of a request that was brought to the one that the store holds; every exchange
in the work on an item touches its own record alone, or the nonce of the sender of a transaction that
was just seen to take effect, and none deletes a record; and once a client is told that an item is
completed or failed, he is told so ever after, unless the store fails. -/
theorem item_history (events : List Event) (index : Int64) :
    (∃ history : List (Bool × Item),
      records index (run events).log = history.map (fun entry => (entry.1, Items.encode entry.2)) ∧
      (∀ entry ∈ history.head?, ∃ request secret now,
        Brought events request secret ∧ entry.2 = Item.ofRequest index secret now request) ∧
      history.IsChain (fun before after =>
        before.2.status.isTerminal = false ∧ before.2.Advances after.1 after.2) ∧
      (run events).store.get? (Items.key index) =
        history.getLast?.map fun entry => Items.encode entry.2) ∧
    EachLine Line.Confined (run events).log ∧
    ∀ (later : List Event) (fortune fortune' : Fortune) (progress : Item.Progress),
      progress ≠ .pending → told index events fortune = .ok progress →
        told index (events ++ later) fortune' = .ok progress ∨
          ∃ error, told index (events ++ later) fortune' = .error (.store error) := by
  refine ⟨?_, ?_, ?_⟩
  · obtain ⟨m, log, m', reached, same, _⟩ :=
      run_reached events [] (by rw [List.append_nil]; exact within_brought events) (.fresh 0)
    obtain ⟨history, path, logged, stored, _⟩ := Item.told_reached reached index
    refine ⟨history, logged, fun entry there => ?_, path.next, same ▸ stored⟩
    obtain ⟨⟨_, secret, now, request, brought, made⟩, own⟩ := path.first entry there
    exact ⟨request, secret, now, brought, own ▸ made⟩
  · obtain ⟨m, log, m', reached, _⟩ :=
      run_reached events [] (by rw [List.append_nil]; exact within_brought events) (.fresh 0)
    exact reached.confined
  · intro later fortune fortune' progress ended told
    obtain ⟨m, log, m', reached, before, goes, after⟩ :=
      run_reached events later (within_brought _) (.fresh 0)
    have sound := (Moment.sound_start (.fresh 0)).reached reached
    have tidy : Items.Tidy (run events).store := before ▸ sound.tidy
    obtain ⟨item, held, rfl, rfl⟩ := Queue.held_of_told tidy told
    have kept := goes.keeps_terminal sound (before ▸ held) (Item.Status.isTerminal_of_progress ended)
    have answer := Queue.told_held fortune' (after ▸ kept)
    cases failure : fortune'.failure with
    | some error =>
      rw [failure] at answer
      exact .inr ⟨error, answer⟩
    | none =>
      rw [failure] at answer
      exact .inl answer

end Chronicle

end Registrar
