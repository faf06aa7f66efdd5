import Registrar.Proofs.Scene.Ticks

/-!
Nonces on record that go back. A record is written over without a look at what it says, so an item that
is confirmed once more puts the nonce after its own transaction on record again, whatever was saved for
others since. The record never gets ahead of the ledger, it goes back with an item that was overtaken
and with nothing else, and none is overtaken while at most one waits (`savedNonce_grows`).
-/

namespace Registrar

open Item (Phase Status)
open Ledger (Profile Submission)

/-- The next nonce that is on record for an account. -/
def Ground.savedNonce (g : Ground) (account : Address) : Option UInt64 :=
  (g.store.get? (Nonce.key account)).bind fun bytes =>
    (Nonce.Record.layout.decode bytes).toOption.map (·.nonce)

/-- The items in a store that wait for a transaction. -/
def Items.waiting (store : Store) : List Item :=
  [.commitSent, .registerSent, .renewSent].flatMap (bucket store)

/-- What is on record for the sender of a transaction is beyond the nonce after it. -/
def Ground.Overtaken (g : Ground) (tx : TxHandle) : Prop :=
  ∃ nonce, g.savedNonce tx.sender = some nonce ∧ tx.nonce.toNat + 1 < nonce.toNat

namespace Ground

variable {g : Ground} {account : Address}

theorem savedNonce_withItem (item : Item) : (g.withItem item).savedNonce account = g.savedNonce account := by
  unfold savedNonce
  rw [get?_withItem]

theorem savedNonce_noting (tx : TxHandle) :
    (g.noting tx).savedNonce account =
      if account = tx.sender then some (saturatingAdd tx.nonce 1) else g.savedNonce account := by
  unfold savedNonce noting Store.withNonce
  rw [Store.get?_put]
  by_cases same : account = tx.sender
  · rw [if_pos same, if_pos (congrArg Nonce.key same), Option.bind_some, Nonce.decode_record]
    rfl
  · rw [if_neg same, if_neg fun keys => same (Nonce.key_inj keys)]

theorem Overtaken.withItem {tx : TxHandle} {item : Item} (h : (g.withItem item).Overtaken tx) :
    g.Overtaken tx := by
  unfold Overtaken at h
  rwa [savedNonce_withItem] at h

end Ground

/-- Transactions are on record under their hashes, and those that took effect used up their nonces. -/
structure Ledger.Orderly (ledger : Ledger) : Prop where
  keyed : ∀ hash mined, ledger.tx? hash = some mined → mined.handle.hash = hash
  used : ∀ hash mined, ledger.tx? hash = some mined → mined.success = true →
    mined.handle.nonce.toNat + 1 ≤ (ledger.minedNonce mined.handle.sender).toNat

namespace Ledger

variable {ledger : Ledger} {sender account : Address} {s : Submission}

theorem orderly_fresh (blockTime : UInt64) : (fresh blockTime).Orderly where
  keyed _ _ absent := nomatch absent
  used _ _ absent := nomatch absent

/-- An accepted transaction uses up its sender's nonce exactly if it takes effect. -/
theorem toNat_minedNonce_after {nonce : UInt64} (room : (ledger.minedNonce account).toNat + 1 < 2 ^ 64) :
    ((ledger.after sender nonce s).minedNonce account).toNat = (ledger.minedNonce account).toNat +
      if ledger.effective s = true ∧ account = sender then 1 else 0 := by
  rw [minedNonce_after]
  split
  · rw [UInt64.toNat_add, UInt64.toNat_one]
    omega
  · rfl

theorem Orderly.after (orderly : ledger.Orderly)
    (room : ∀ account, (ledger.minedNonce account).toNat + 1 < 2 ^ 64) :
    (ledger.after sender (ledger.minedNonce sender) s).Orderly := by
  constructor
  · intro hash mined there
    rw [tx?_after] at there
    split at there
    · rename_i same
      cases there
      exact same.symm
    · exact orderly.keyed hash mined there
  · intro hash mined there success
    rw [tx?_after] at there
    rw [toNat_minedNonce_after (room _)]
    split at there
    · cases there
      rw [if_pos ⟨success, rfl⟩]
      exact Nat.le_refl _
    · exact (orderly.used hash mined there success).trans (Nat.le_add_right _ _)

end Ledger

/-- A transaction that an item waits for and that took effect has used up its nonce. -/
theorem Item.Waits.used {item : Item} {g : Ground} {tx : TxHandle} (waits : item.Waits g tx)
    (orderly : g.ledger.Orderly) (landed : g.ledger.landed tx.hash = true) :
    tx.nonce.toNat + 1 ≤ (g.ledger.minedNonce tx.sender).toNat := by
  obtain ⟨_, hash, mined, _, _, there, rfl⟩ := waits
  rw [orderly.keyed hash mined there] at landed
  unfold Ledger.landed at landed
  rw [there] at landed
  exact orderly.used hash mined there landed

namespace Item

variable {item : Item} {phase : Phase}

theorem awaited_of_terminal (terminal : item.status.isTerminal = true) : item.awaited = none := by
  cases awaits : item.awaited with
  | none => rfl
  | some phase =>
    rw [live_of_awaited awaits] at terminal
    cases terminal

/-- An item that was just sent waits for what was sent. -/
theorem awaited_of_sending {tx : TxHandle} (sends : item.sending = some phase) :
    (item.record tx phase).advanced.awaited = some phase := by
  unfold sending at sends
  unfold awaited advanced
  rw [kind_record, status_record]
  split at sends
  · rename_i kind status; cases sends; rw [kind, status]; rfl
  · rename_i kind status; cases sends; rw [kind, status]; rfl
  · rename_i kind status; cases sends; rw [kind, status]; rfl
  · cases sends

/-- An item whose transaction took effect waits for nothing before the next one is sent. -/
theorem awaited_of_awaited (awaits : item.awaited = some phase) : item.advanced.awaited = none := by
  unfold awaited at awaits
  unfold awaited advanced
  split at awaits
  · rename_i kind status; rw [kind, status]; rfl
  · rename_i kind status; rw [kind, status]; rfl
  · rename_i kind status; rw [kind, status]; rfl
  · cases awaits

theorem status_of_awaited (awaits : item.awaited = some phase) :
    item.status ∈ [Status.commitSent, .registerSent, .renewSent] := by
  unfold awaited at awaits
  split at awaits
  · rename_i status; rw [status]; decide
  · rename_i status; rw [status]; decide
  · rename_i status; rw [status]; decide
  · cases awaits

/-- Where at most one item waits there are no two. -/
theorem eq_of_waiting {store : Store} {a b : Item} {phase' : Phase} (tidy : Items.Tidy store)
    (calm : (Items.waiting store).length ≤ 1) (heldA : Items.Holds store a)
    (heldB : Items.Holds store b) (awaitsA : a.awaited = some phase)
    (awaitsB : b.awaited = some phase') : a = b := by
  have waits : ∀ {item : Item} {phase : Phase}, Items.Holds store item → item.awaited = some phase →
      item ∈ Items.waiting store := fun held awaits =>
    List.mem_flatMap.2 ⟨_, status_of_awaited awaits, (Items.mem_bucket tidy).2 ⟨held, rfl⟩⟩
  have thereA := waits heldA awaitsA
  have thereB := waits heldB awaitsB
  obtain ⟨only, one⟩ :=
    List.length_eq_one_iff.1 (Nat.le_antisymm calm (List.length_pos_of_mem thereA))
  rw [one] at thereA thereB
  rw [List.mem_singleton.1 thereA, List.mem_singleton.1 thereB]

end Item

/-- The transaction of an item that is being confirmed is the one that the item waits for. -/
def Stage.Confirms (g : Ground) : Stage → Prop
  | .found item tx => item.Waits g tx
  | .mined item tx => item.Waits g tx ∧ g.ledger.landed tx.hash = true
  | _ => True

/-- What is still to be written down was not overtaken. -/
def Stage.Level (g : Ground) : Stage → Prop
  | .sent _ _ tx => ∀ mined, g.ledger.tx? tx.hash = some mined → ¬ g.Overtaken mined.handle
  | .writing _ written => ∀ tx, written.Waits g tx → ¬ g.Overtaken tx
  | _ => True

theorem Stage.Rests.confirms {stage : Stage} (rests : stage.Rests) (g : Ground) :
    stage.Confirms g := by
  rcases rests with rfl | ⟨_, _, rfl⟩ <;> trivial

theorem Stage.Rests.level {stage : Stage} (rests : stage.Rests) (g : Ground) : stage.Level g := by
  rcases rests with rfl | ⟨_, _, rfl⟩ <;> trivial

theorem Stage.Level.withItem {stage : Stage} {g : Ground} (level : stage.Level g) (item : Item) :
    stage.Level (g.withItem item) := by
  cases stage with
  | sent | writing => exact fun tx there overtaken => level tx there overtaken.withItem
  | _ => trivial

/-- What is kept of the records and the ledger, whatever happens. -/
structure Moment.Accounted (m : Moment) : Prop where
  ledger : m.ground.ledger.Orderly
  saved : ∀ account nonce, m.ground.savedNonce account = some nonce →
    nonce.toNat ≤ (m.ground.ledger.minedNonce account).toNat
  stage : m.stage.Confirms m.ground

/-- No item that waits was overtaken, nor was what is still to be written down. -/
structure Moment.Level (m : Moment) : Prop where
  stored : ∀ item tx, Items.Holds m.ground.store item → item.Waits m.ground tx →
    ¬ m.ground.Overtaken tx
  stage : m.stage.Level m.ground

namespace Moment

variable {m m' : Moment} {account : Address}

theorem accounted_start (blockTime : UInt64) : (start (.fresh blockTime)).Accounted where
  ledger := Ledger.orderly_fresh blockTime
  saved _ _ absent := nomatch absent
  stage := trivial

theorem level_start (ledger : Ledger) : (start ledger).Level where
  stored _ _ held := nomatch held.2
  stage := trivial

/-- No tick uses up more than one nonce. -/
theorem Turns.minedNonce (turns : m.Turns m'.ground m'.stage) (account : Address)
    (room : (m.ground.ledger.minedNonce account).toNat + 1 < 2 ^ 64) :
    (m'.ground.ledger.minedNonce account).toNat ≤ (m.ground.ledger.minedNonce account).toNat + 1 ∧
      (m.ground.ledger.minedNonce account).toNat ≤ (m'.ground.ledger.minedNonce account).toNat := by
  generalize m'.ground = g, m'.stage = stage at turns
  cases turns with
  | @accept _ _ _ sender s =>
    rw [Ground.ledger_accepting, Ledger.toNat_minedNonce_after room]
    split <;> omega
  | stay | rest | find | mine | note | due | write | insert =>
    exact ⟨Nat.le_add_right _ _, Nat.le_refl _⟩

/-- The record of an account stays, or is written over by the confirmation of an item. -/
theorem Turns.savedNonce (turns : m.Turns m'.ground m'.stage) (account : Address) :
    m'.ground.savedNonce account = m.ground.savedNonce account ∨
      ∃ item tx, m.stage = .mined item tx ∧ tx.sender = account ∧
        m'.ground.savedNonce account = some (saturatingAdd tx.nonce 1) := by
  generalize m'.ground = g, m'.stage = stage at turns
  cases turns with
  | stay | rest | accept | find | mine | due => exact .inl rfl
  | write | insert => exact .inl (Ground.savedNonce_withItem _)
  | @note item tx mined =>
    rw [Ground.savedNonce_noting]
    by_cases same : account = tx.sender
    · exact .inr ⟨item, tx, mined, same.symm, if_pos same⟩
    · exact .inl (if_neg same)

/-- The nonce that the confirmation of an item puts on record. -/
theorem Accounted.confirmed (accounted : m.Accounted) {item : Item} {tx : TxHandle}
    (mined : m.stage = .mined item tx) :
    item.Waits m.ground tx ∧ (saturatingAdd tx.nonce 1).toNat = tx.nonce.toNat + 1 ∧
      tx.nonce.toNat + 1 ≤ (m.ground.ledger.minedNonce tx.sender).toNat := by
  have confirms := accounted.stage
  rw [mined] at confirms
  obtain ⟨waits, landed⟩ := confirms
  have used := waits.used accounted.ledger landed
  have small := (m.ground.ledger.minedNonce tx.sender).toNat_lt
  refine ⟨waits, ?_, used⟩
  rw [toNat_saturatingAdd, UInt64.toNat_one]
  simp only [UInt64.size]
  omega

theorem Accounted.turns (accounted : m.Accounted) (turns : m.Turns m'.ground m'.stage)
    (room : ∀ account, (m.ground.ledger.minedNonce account).toNat + 1 < 2 ^ 64) : m'.Accounted := by
  have grown : ∀ account nonce, m'.ground.savedNonce account = some nonce →
      nonce.toNat ≤ (m'.ground.ledger.minedNonce account).toNat := by
    intro account nonce there
    have more := (turns.minedNonce account (room account)).2
    rcases turns.savedNonce account with same | ⟨item, tx, mined, rfl, saved⟩
    · exact (accounted.saved account nonce (same ▸ there)).trans more
    · rw [saved] at there
      cases there
      obtain ⟨_, same, used⟩ := accounted.confirmed mined
      omega
  obtain ⟨g, skip, stage, desk⟩ := m'
  dsimp only at turns grown
  cases turns with
  | stay | insert => exact ⟨accounted.ledger, grown, accounted.stage⟩
  | rest rests => exact ⟨accounted.ledger, grown, rests.confirms _⟩
  | accept => exact ⟨accounted.ledger.after room, grown, trivial⟩
  | find waits => exact ⟨accounted.ledger, grown, waits⟩
  | mine found landed =>
    have confirms := accounted.stage
    rw [found] at confirms
    exact ⟨accounted.ledger, grown, confirms, landed⟩
  | note | due | write => exact ⟨accounted.ledger, grown, trivial⟩

/-- The record is not beyond the nonce of what is accepted next. -/
theorem Accounted.not_overtaken (accounted : m.Accounted) (sender : Address) :
    ¬ m.ground.Overtaken
      (m.ground.ledger.nextTx sender (m.ground.ledger.minedNonce sender)) := by
  rintro ⟨nonce, saved, beyond⟩
  have before := accounted.saved sender nonce saved
  simp only [Ledger.nextTx] at beyond
  omega

/-- What is due to be written was not overtaken if what was sent was not. -/
theorem level_of_due {stage : Stage} {skip : Bool} {item due : Item} {g : Ground}
    (level : stage.Level g) (isDue : Stage.Due skip stage item due) (date : UInt64) :
    (Stage.writing item (due.dated date)).Level g := by
  rintro tx ⟨phase, hash, mined, awaits, recorded, there, rfl⟩
  have awaits : due.awaited = some phase := awaits
  rw [Item.sent_dated] at recorded
  cases isDue with
  | failed =>
    rw [Item.awaited_of_terminal (Status.isTerminal_onFailure _ _)] at awaits
    cases awaits
  | skipped =>
    rw [Item.awaited_of_terminal rfl] at awaits
    cases awaits
  | noted waited =>
    rw [Item.awaited_of_awaited waited] at awaits
    cases awaits
  | @sent _ own tx sends =>
    rw [Item.awaited_of_sending sends] at awaits
    cases awaits
    rw [Item.sent_advanced, Item.sent_record, if_pos rfl] at recorded
    cases recorded
    exact level mined there

/-- None is overtaken by a tick while at most one waits. -/
theorem Level.turns (level : m.Level) (sound : m.Sound .any) (accounted : m.Accounted)
    (calm : (Items.waiting m.ground.store).length ≤ 1) (turns : m.Turns m'.ground m'.stage) :
    m'.Level := by
  obtain ⟨g, skip, stage, desk⟩ := m'
  dsimp only at turns
  cases turns with
  | stay => exact ⟨level.stored, level.stage⟩
  | rest rests => exact ⟨level.stored, rests.level _⟩
  | find | mine => exact ⟨level.stored, trivial⟩
  | due date isDue => exact ⟨level.stored, level_of_due level.stage isDue date⟩
  | @accept _ _ _ sender s =>
    constructor
    · rintro item tx held ⟨phase, hash, mined, awaits, recorded, there, rfl⟩
      rw [Ground.ledger_accepting, Ledger.tx?_after] at there
      split at there
      · cases there
        exact accounted.not_overtaken sender
      · exact level.stored item _ held ⟨phase, hash, mined, awaits, recorded, there, rfl⟩
    · intro mined there
      rw [Ground.ledger_accepting, Ledger.tx?_after, if_pos rfl] at there
      cases there
      exact accounted.not_overtaken sender
  | @note item tx mined =>
    -- The only item that waits is the one that was confirmed, and the record is right after it.
    refine ⟨?_, trivial⟩
    rintro other tx' held waits ⟨nonce, saved, beyond⟩
    have held : Items.Holds m.ground.store other := Items.holds_withNonce.1 held
    have waits : other.Waits m.ground tx' := waits
    obtain ⟨own, same, _⟩ := accounted.confirmed mined
    have one : other = item := by
      obtain ⟨_, _, _, awaits, _⟩ := own
      obtain ⟨_, _, _, awaits', _⟩ := waits
      exact Item.eq_of_waiting sound.tidy calm held (sound.stage item (mined ▸ rfl)) awaits' awaits
    subst one
    cases own.unique waits
    rw [Ground.savedNonce_noting, if_pos rfl] at saved
    cases saved
    omega
  | @write item written writing before advances =>
    have fits := advances.fits before.1
    have about := level.stage
    rw [writing] at about
    refine ⟨fun other tx held waits overtaken => ?_, trivial⟩
    rcases (Items.holds_withItem fits).1 held with rfl | ⟨_, held⟩
    · exact about tx waits overtaken.withItem
    · exact level.stored other tx held waits overtaken.withItem
  | @insert item new =>
    constructor
    · intro other tx held waits overtaken
      rcases (Items.holds_withItem new.1).1 held with rfl | ⟨_, held⟩
      · obtain ⟨_, _, _, awaits, _⟩ := waits
        rw [awaited_of_initial new.initial.1] at awaits
        cases awaits
      · exact level.stored other tx held waits overtaken.withItem
    · exact level.stage.withItem item

end Moment

namespace Scene

variable {scene : Scene} {m : Moment} {count : Nat} {event : Event} {account : Address}

/-- What is known of a scene after a number of events. -/
structure Known (count : Nat) (scene : Scene) (m : Moment) : Prop where
  paced : scene.Paced m
  sound : m.Sound .any
  accounted : m.Accounted
  few : ∀ account, (m.ground.ledger.minedNonce account).toNat ≤ count

theorem known_start (profile : Profile) (calendar : Calendar) (blockTime : UInt64) :
    (start profile calendar blockTime).Known 0 (.start (.fresh blockTime)) where
  paced := paced_start profile calendar blockTime
  sound := Moment.sound_start _
  accounted := Moment.accounted_start blockTime
  few _ := Nat.le_refl 0

/-- One event is one turn. -/
theorem Known.step (known : scene.Known count m) (room : count + 1 < 2 ^ 64)
    (fits : event.Fits .all fun _ => True) :
    ∃ m', (scene.step event).Known (count + 1) m' ∧ m.Turns m'.ground m'.stage := by
  obtain ⟨m', paced, follows⟩ := known.paced.step fits
  have room' : ∀ account, (m.ground.ledger.minedNonce account).toNat + 1 < 2 ^ 64 := fun account =>
    Nat.lt_of_le_of_lt (Nat.add_le_add_right (known.few account) 1) room
  have kept : m'.Sound .any ∧ m.Turns m'.ground m'.stage := by
    rcases follows with rfl | ⟨lines, tick⟩
    · exact ⟨known.sound, .stay⟩
    · exact ⟨known.sound.tick tick, tick.turns known.sound⟩
  obtain ⟨sound, turns⟩ := kept
  refine ⟨m', ⟨paced, sound, known.accounted.turns turns room', fun account => ?_⟩, turns⟩
  exact (turns.minedNonce account (room' account)).1.trans
    (Nat.add_le_add_right (known.few account) 1)

/-- An event that puts a smaller nonce on record confirms an item that was overtaken. -/
theorem Known.savedNonce (known : scene.Known count m) (room : count + 1 < 2 ^ 64)
    (fits : event.Fits .all fun _ => True) {nonce : UInt64}
    (saved : scene.backend.ground.savedNonce account = some nonce) :
    (∃ later, (scene.step event).backend.ground.savedNonce account = some later ∧ nonce ≤ later) ∨
      ∃ item tx, Items.Holds scene.backend.ground.store item ∧ item.Waits scene.backend.ground tx ∧
        tx.sender = account ∧ scene.backend.ground.Overtaken tx ∧
        (scene.step event).backend.ground.savedNonce account = some (tx.nonce + 1) := by
  obtain ⟨m', known', turns⟩ := known.step room fits
  rw [← known.paced.ground] at saved ⊢
  rw [← known'.paced.ground]
  rcases turns.savedNonce account with same | ⟨item, tx, mined, rfl, confirmed⟩
  · exact .inl ⟨nonce, same.trans saved, UInt64.le_refl nonce⟩
  · obtain ⟨waits, next, used⟩ := known.accounted.confirmed mined
    have held := known.sound.stage item (mined ▸ rfl)
    by_cases behind : tx.nonce.toNat + 1 < nonce.toNat
    · rw [saturatingAdd_one (by have := known.few tx.sender; omega)] at confirmed
      exact .inr ⟨item, tx, held, waits, rfl, ⟨nonce, saved, behind⟩, confirmed⟩
    · exact .inl ⟨_, confirmed, UInt64.le_iff_toNat_le.2 (by omega)⟩

/-- While at most one item waits, none is overtaken. -/
theorem Known.run (known : scene.Known count m) (events : List Event)
    (fits : ∀ event ∈ events, event.Fits .all fun _ => True) (room : count + events.length < 2 ^ 64) :
    ∃ m', (scene.run events).Known (count + events.length) m' ∧
      (m.Level → (∀ n < events.length,
        (Items.waiting (scene.run (events.take n)).backend.ground.store).length ≤ 1) → m'.Level) := by
  induction events generalizing scene count m with
  | nil => exact ⟨m, known, fun level _ => level⟩
  | cons event rest ih =>
    rw [List.length_cons, Nat.add_comm rest.length, ← Nat.add_assoc] at room ⊢
    obtain ⟨mid, next, turns⟩ := known.step (by omega) (fits event List.mem_cons_self)
    obtain ⟨m', last, keeps⟩ :=
      ih next (fun event there => fits event (List.mem_cons_of_mem _ there)) room
    refine ⟨m', last, fun level calm => keeps ?_ fun n few => calm (n + 1) (by omega)⟩
    have now : (Items.waiting scene.backend.ground.store).length ≤ 1 := calm 0 (by omega)
    rw [← known.paced.ground] at now
    exact level.turns known.sound known.accounted now turns

section

variable {profile : Profile} {calendar : Calendar} {blockTime : UInt64} {events : List Event}

theorem known_take (fits : ∀ event ∈ events, event.Fits .all fun _ => True)
    (room : events.length < 2 ^ 64) (n : Nat) :
    ∃ m, ((start profile calendar blockTime).run (events.take n)).Known (min n events.length) m ∧
      ((∀ k < n, (Items.waiting ((start profile calendar blockTime).run
        (events.take k)).backend.ground.store).length ≤ 1) → m.Level) := by
  have length : (events.take n).length = min n events.length := List.length_take
  obtain ⟨m, known, keeps⟩ := (known_start profile calendar blockTime).run (events.take n)
    (fun event there => fits event (List.mem_of_mem_take there)) (by omega)
  rw [Nat.zero_add, length] at known
  refine ⟨m, known, fun calm => keeps (Moment.level_start _) fun k few => ?_⟩
  rw [length] at few
  rw [List.take_take, Nat.min_eq_left (by omega)]
  exact calm k (by omega)

/-- From one event to the next the record of an account grows, or an item is confirmed that was
overtaken. -/
theorem savedNonce_take (fits : ∀ event ∈ events, event.Fits .all fun _ => True)
    (room : events.length < 2 ^ 64) (account : Address) (n : Nat) :
    let ground := fun n => ((start profile calendar blockTime).run (events.take n)).backend.ground
    ∀ nonce, (ground n).savedNonce account = some nonce →
      (∃ later, (ground (n + 1)).savedNonce account = some later ∧ nonce ≤ later) ∨
        ∃ item tx, Items.Holds (ground n).store item ∧ item.Waits (ground n) tx ∧
          tx.sender = account ∧ (ground n).Overtaken tx ∧
          (ground (n + 1)).savedNonce account = some (tx.nonce + 1) := by
  intro ground nonce saved
  by_cases more : n < events.length
  · obtain ⟨m, known, _⟩ := @known_take profile calendar blockTime events fits room n
    have next : (start profile calendar blockTime).run (events.take (n + 1)) =
        ((start profile calendar blockTime).run (events.take n)).step events[n] := by
      unfold run
      rw [List.take_succ_eq_append_getElem more, List.foldl_append]
      rfl
    simp only [ground, next]
    exact known.savedNonce (by omega) (fits _ (List.getElem_mem more)) saved
  · have ended : events.take (n + 1) = events.take n := by
      rw [List.take_of_length_le (by omega), List.take_of_length_le (by omega)]
    simp only [ground, ended]
    exact .inl ⟨nonce, saved, UInt64.le_refl nonce⟩

end

/-- The nonce on record for an account is never ahead of the ledger. It goes back only when an item is
confirmed once more after others have overtaken it, and never while at most one item waits for its
transaction. -/
theorem savedNonce_grows (profile : Profile) (calendar : Calendar) (blockTime : UInt64)
    (events : List Event) (fits : ∀ event ∈ events, event.Fits .all fun _ => True)
    (room : events.length < 2 ^ 64) (account : Address) :
    let ground := fun n => ((start profile calendar blockTime).run (events.take n)).backend.ground
    (∀ n nonce, (ground n).savedNonce account = some nonce →
      nonce ≤ (ground n).ledger.minedNonce account) ∧
    (∀ n nonce, (ground n).savedNonce account = some nonce →
      (∃ later, (ground (n + 1)).savedNonce account = some later ∧ nonce ≤ later) ∨
        ∃ item tx, Items.Holds (ground n).store item ∧ item.Waits (ground n) tx ∧
          tx.sender = account ∧ (ground n).Overtaken tx ∧
          (ground (n + 1)).savedNonce account = some (tx.nonce + 1)) ∧
    ∀ first last, first ≤ last →
      (∀ n < last, (Items.waiting (ground n).store).length ≤ 1) →
      ∀ nonce, (ground first).savedNonce account = some nonce →
        ∃ later, (ground last).savedNonce account = some later ∧ nonce ≤ later := by
  intro ground
  have known := @known_take profile calendar blockTime events fits room
  have advances := @savedNonce_take profile calendar blockTime events fits room account
  refine ⟨fun n nonce saved => ?_, advances, fun first last before => ?_⟩
  · obtain ⟨m, known, _⟩ := known n
    have kept := known.accounted.saved account nonce
    rw [known.paced.ground] at kept
    exact UInt64.le_iff_toNat_le.2 (kept saved)
  · induction before with
    | refl => exact fun _ nonce saved => ⟨nonce, saved, UInt64.le_refl nonce⟩
    | @step last _ ih =>
      intro calm nonce saved
      obtain ⟨later, saved, more⟩ := ih (fun n few => calm n (Nat.lt_succ_of_lt few)) nonce saved
      rcases advances last later saved with ⟨latest, saved, most⟩ | ⟨item, tx, held, waits, _, behind, _⟩
      · exact ⟨latest, saved, UInt64.le_trans more most⟩
      · obtain ⟨m, known, keeps⟩ := known last
        have level := keeps fun n few => calm n (Nat.lt_succ_of_lt few)
        have same : m.ground = ground last := known.paced.ground
        have not_behind := level.stored item tx
        rw [same] at not_behind
        exact absurd behind (not_behind held waits)

namespace Overtaking

def request (fullName : String) : ItemRequest :=
  .register ⟨fullName, "x", "0x10d5B0e279E5E4c1d1Df5F57DFB7E84813920a51", ""⟩

/-- The next item that is written is not. -/
def fault : Store.FaultRule := ⟨⟨.put, Items.keyStart⟩, 0, some 1, .io ""⟩

/-- A commit is confirmed, but its item is not written and waits on. The commit of another item is
confirmed; then all dies, and the scan after that confirms the first one once more. -/
def events : List Event :=
  [.add (request "a.any") (.fill 1)] ++ .replicate 5 .file ++ [.work 0] ++ .replicate 15 .turn ++
    [.lay [fault] []] ++ .replicate 2 .turn ++
    [.add (request "b.any") (.fill 2)] ++ .replicate 5 .file ++ [.work 1] ++ .replicate 13 .turn ++
    [.restart .sample, .scan] ++ .replicate 7 .turn

theorem fits {faults : Faults} {allowed : Profile → Prop} (failing : faults.store)
    (known : allowed .sample) : ∀ event ∈ events, event.Fits faults allowed := by
  intro event there
  simp only [events, List.mem_append, List.mem_replicate, List.mem_cons, List.not_mem_nil,
    or_false] at there
  rcases there with
    ((((((((((rfl | ⟨_, rfl⟩) | rfl) | ⟨_, rfl⟩) | rfl) | ⟨_, rfl⟩) | rfl) | ⟨_, rfl⟩) | rfl) |
      ⟨_, rfl⟩) | rfl | rfl) | ⟨_, rfl⟩
  all_goals
    first
    | trivial
    | exact known
    | exact ⟨fun _ => failing, fun _ absent => nomatch absent⟩
    | exact show ItemRequest.Fits _ by decide

set_option maxRecDepth 8000 in
theorem records :
    let ground := fun n => ((start .sample ⟨7, 1⟩ 0).run (events.take n)).backend.ground
    let saved := fun n => (ground n).savedNonce Profile.sample.admin
    saved 20 = some 1 ∧ saved 53 = some 2 ∧ saved 54 = some 1 ∧
      ∀ n < 41, (Items.waiting (ground n).store).length ≤ 1 := by
  decide +kernel +zetaReduce

end Overtaking

theorem overtaken_confirmed :
    let ground := fun n =>
      ((start .sample ⟨7, 1⟩ 0).run (Overtaking.events.take n)).backend.ground
    let saved := fun n => (ground n).savedNonce Profile.sample.admin
    saved 20 = some 1 ∧ (∃ later, saved 41 = some later ∧ 1 ≤ later) ∧
      saved 53 = some 2 ∧ saved 54 = some 1 ∧
      ∃ item tx, Items.Holds (ground 53).store item ∧ item.Waits (ground 53) tx ∧
        (ground 53).Overtaken tx ∧ saved 54 = some (tx.nonce + 1) := by
  intro ground saved
  obtain ⟨early, before, after, calm⟩ := Overtaking.records
  obtain ⟨_, goesBack, grows⟩ := savedNonce_grows .sample ⟨7, 1⟩ 0 Overtaking.events
    (Overtaking.fits trivial trivial) (by decide) Profile.sample.admin
  refine ⟨early, grows 20 41 (by decide) calm 1 early, before, after, ?_⟩
  rcases goesBack 53 2 before with ⟨later, now, more⟩ | ⟨item, tx, held, waits, _, behind, now⟩
  · cases after.symm.trans now
    exact absurd more (by decide)
  · exact ⟨item, tx, held, waits, behind, now⟩

/-- A nonce on record may go back when writes to the store fail, although nothing else does. -/
theorem not_savedNonce_grows :
    ¬ ∀ (profile : Profile) (calendar : Calendar) (blockTime : UInt64) (events : List Event),
      profile.nonceOverride = none →
      (∀ event ∈ events, event.Fits ⟨True, False, False⟩ (· = profile)) →
      let saved := fun n => ((start profile calendar blockTime).run
        (events.take n)).backend.ground.savedNonce profile.admin
      ∀ first last, first ≤ last → ∀ nonce, saved first = some nonce →
        ∃ later, saved last = some later ∧ nonce ≤ later := by
  intro always
  obtain ⟨_, before, after, _⟩ := Overtaking.records
  obtain ⟨later, now, more⟩ := always .sample ⟨7, 1⟩ 0 Overtaking.events rfl
    (Overtaking.fits trivial rfl) 53 54 (by decide) 2 before
  cases after.symm.trans now
  exact absurd more (by decide)

end Scene

end Registrar
