import Registrar.Proofs.Chronicle.History
import Registrar.Proofs.Nonce.InStep

/-!
Commitments are opened late and as they were made. A registration is revealed only after the gateway
said that the transaction found by the commit hash on record took effect; it is the registration that
every commitment of the item was asked for with, and what is committed to is what the gateway answered
last when asked for a commitment (`reveal_after_commit`).
-/

namespace Registrar

open Item (Phase Status)

/-- The registration that an exchange reveals. -/
def Exchange.revealed : Exchange → Option Registration
  | ⟨.gateway (.register _ registration _), _⟩ => some registration
  | _ => none

/-- The registration that an exchange asks for a commitment to, and the answer. -/
def Exchange.promised : Exchange → Option (Registration × Except GatewayError Commitment)
  | ⟨.gateway (.makeCommitment registration _), answer⟩ => some (registration, answer)
  | _ => none

/-- The commitment that an exchange submits. -/
def Exchange.committed : Exchange → Option Commitment
  | ⟨.gateway (.commit _ commitment _), _⟩ => some commitment
  | _ => none

/-- The registration that an exchange is about. -/
def Exchange.registration (exchange : Exchange) : Option Registration :=
  exchange.revealed.or (exchange.promised.map (·.1))

/-- The last time that a commitment was asked for, and the index of the item it was asked for. -/
def lastPromise (log : List Line) :
    Option (Int64 × Registration × Except GatewayError Commitment) :=
  (log.filterMap fun
    | .work index _ _ exchange => exchange.promised.map (index, ·)
    | .aside _ _ | .died => none).getLast?

/-- The gateway was asked for the transaction of a phase by the hash on record for an item. -/
def Fetched (log : List Line) (item : Item) (phase : Phase) (tx : TxHandle) : Prop :=
  ∃ hash skip before connection, (item.sent phase).hash = some hash ∧
    before.get? (Items.key item.index) = some (Items.encode item) ∧
    Line.work item.index skip before ⟨.gateway (.findTx connection hash), .ok tx⟩ ∈ log

/-- The gateway was asked for the transaction of a phase by the hash that was on record for an item,
and then said that it took effect. -/
def Confirmed (log : List Line) (index : Int64) (phase : Phase) (hash : TxHash) : Prop :=
  ∃ item skip before connection tx skip' before' connection',
    before.get? (Items.key index) = some (Items.encode item) ∧ (item.sent phase).hash = some hash ∧
    [Line.work index skip before ⟨.gateway (.findTx connection hash), .ok tx⟩,
      Line.work index skip' before' ⟨.gateway (.awaitMined connection' tx), .ok true⟩].Sublist log

/-- What comes before a submission: a commitment was the last that was asked for, and given for the
item; a registration is revealed with the transaction of its commitment confirmed. -/
def Line.Prepared (past : List Line) : Line → Prop
  | .work index _ before exchange =>
    (∀ commitment, exchange.committed = some commitment →
      ∃ registration, lastPromise past = some (index, registration, .ok commitment)) ∧
    ∀ registration, exchange.revealed = some registration →
      ∃ item hash, before.get? (Items.key index) = some (Items.encode item) ∧
        item.commitTx.hash = some hash ∧ Confirmed past index .commit hash
  | .aside _ _ | .died => True

/-- The registration of an item for its owner, if its owner's address can be read. -/
def Item.pledge (item : Item) : Option Registration :=
  (Processor.owner item).toOption.map item.registration

theorem pledge_eq_of_origin {a b : Item} (h : a.origin = b.origin) : a.pledge = b.pledge := by
  unfold Item.pledge
  rw [owner_eq_of_origin h]
  exact congrArg (Option.map · _) (funext (registration_eq_of_origin h))

/-- The transaction of a phase that was sent for an item was confirmed. -/
def Item.Settled (item : Item) (log : List Line) (phase : Phase) : Prop :=
  ∃ hash, (item.sent phase).hash = some hash ∧ Confirmed log item.index phase hash

/-- What was asked and answered for what is in hand. -/
structure Moment.Prepared (log : List Line) (m : Moment) : Prop where
  promise : ∀ item registration commitment,
    m.stage = .held item (some (registration, commitment)) →
      lastPromise log = some (item.index, registration, .ok commitment)
  found : ∀ item tx, m.stage = .found item tx →
    ∃ phase, item.awaited = some phase ∧ Fetched log item phase tx
  mined : ∀ item tx, m.stage = .mined item tx →
    ∃ phase, item.awaited = some phase ∧ item.Settled log phase
  noted : ∀ item, m.stage = .noted item →
    ∃ phase, item.awaited = some phase ∧ item.Settled log phase
  writing : ∀ item written, m.stage = .writing item written → written.sending = some .register →
    written.Settled log .commit
  stored : ∀ item, Items.Holds m.ground.store item → item.sending = some .register →
    item.Settled log .commit

section

variable {s : Surroundings} {asked : Asked} {m m' : Moment} {lines log : List Line} {item : Item}

theorem Fetched.append {phase : Phase} {tx : TxHandle} (fetched : Fetched log item phase tx)
    (later : List Line) : Fetched (log ++ later) item phase tx := by
  obtain ⟨hash, skip, before, connection, recorded, stored, there⟩ := fetched
  exact ⟨hash, skip, before, connection, recorded, stored, List.mem_append_left _ there⟩

theorem Item.Settled.append {phase : Phase} (settled : item.Settled log phase) (later : List Line) :
    item.Settled (log ++ later) phase := by
  obtain ⟨hash, recorded, stored, skip, before, connection, tx, skip', before', connection', held, had,
    sub⟩ := settled
  exact ⟨hash, recorded, stored, skip, before, connection, tx, skip', before', connection', held, had,
    sub.trans (List.sublist_append_left _ _)⟩

/-- A transaction that was fetched and then took effect is confirmed. -/
theorem Fetched.settled {phase : Phase} {tx : TxHandle} (fetched : Fetched log item phase tx)
    (skip : Bool) (before : Store) (connection : Connection) :
    item.Settled
      (log ++ [.work item.index skip before ⟨.gateway (.awaitMined connection tx), .ok true⟩]) phase := by
  obtain ⟨hash, skip', before', connection', recorded, stored, there⟩ := fetched
  refine ⟨hash, recorded, item, skip', before', connection', tx, skip, before, connection, stored,
    recorded, ?_⟩
  exact List.Sublist.append (List.singleton_sublist.2 there) (.refl _)

theorem Item.sending_register {item : Item} :
    item.sending = some .register ↔ item.kind = .register ∧ item.status = .commitDone := by
  unfold sending
  cases item.kind <;> cases item.status <;> simp

/-- An item that is due to be written and is then to reveal its registration was just confirmed. -/
theorem Stage.Due.reveals {skip : Bool} {stage : Stage} {written : Item} {date : UInt64}
    (due : Due skip stage item written) (reveals : (written.dated date).sending = some .register) :
    stage = .noted item ∧ item.awaited = some .commit ∧ written = item.advanced := by
  obtain ⟨kind, status⟩ := Item.sending_register.1 reveals
  cases due with
  | failed =>
    have terminal := Status.isTerminal_onFailure item.kind item.status
    have revealing : Status.onFailure item.kind item.status = .commitDone := status
    rw [revealing] at terminal
    cases terminal
  | skipped => cases status
  | @sent _ phase tx sends =>
    obtain ⟨rest, ahead, _⟩ := Item.ahead_of_sending sends
    have next : ((item.record tx phase).advanced).status = phase.sentStatus := by
      unfold Item.advanced Status.next Status.onSuccess
      rw [Item.kind_record, Item.status_record, ahead]
      rfl
    have revealing : phase.sentStatus = .commitDone := next.symm.trans status
    cases phase <;> cases revealing
  | noted waits =>
    have kind : item.kind = .register := kind
    have status : Status.next item.kind item.status = .commitDone := status
    refine ⟨rfl, ?_, rfl⟩
    unfold Item.awaited
    rw [kind] at status ⊢
    cases now : item.status <;> rw [now] at status <;> first | rfl | exact absurd status (by decide)

theorem lastPromise_work (log : List Line) (index : Int64) (skip : Bool) (before : Store)
    (exchange : Exchange) :
    lastPromise (log ++ [.work index skip before exchange]) =
      (exchange.promised.map (index, ·)).or (lastPromise log) := by
  unfold lastPromise
  rw [List.filterMap_append, List.getLast?_append]
  cases promised : exchange.promised <;> simp [promised]

theorem lastPromise_aside (log : List Line) (before : Store) (exchange : Exchange) :
    lastPromise (log ++ [.aside before exchange]) = lastPromise log := by
  unfold lastPromise
  rw [List.filterMap_append]
  exact congrArg List.getLast? (List.append_nil _)

theorem lastPromise_died (log : List Line) : lastPromise (log ++ [.died]) = lastPromise log := by
  unfold lastPromise
  rw [List.filterMap_append]
  exact congrArg List.getLast? (List.append_nil _)

/-- A request that only opens the way is about no registration. -/
theorem Exchange.of_opens {request : Gateway.Request} {answer : request.Answer}
    (opens : request.opens = true) :
    Exchange.promised ⟨.gateway request, answer⟩ = none ∧
      Exchange.revealed ⟨.gateway request, answer⟩ = none ∧
      Exchange.committed ⟨.gateway request, answer⟩ = none := by
  cases request <;> first | exact ⟨rfl, rfl, rfl⟩ | cases opens

/-- The items in the store that are to reveal their registrations are settled. -/
theorem Moment.Prepared.stored_tick (prepared : m.Prepared log) (sound : m.Sound asked)
    (tick : Tick s asked m lines m') (held : Items.Holds m'.ground.store item)
    (reveals : item.sending = some .register) : item.Settled (log ++ lines) .commit := by
  rcases tick.holds sound held with before | ⟨old, writing⟩ | asks
  · exact (prepared.stored item before reveals).append _
  · exact (prepared.writing old item writing reveals).append _
  · have initial := asks.new.initial.1
    have revealing := (Item.sending_register.1 reveals).2
    rw [initial] at revealing
    cases revealing

/-- What is prepared for what is in hand stays so while nothing is done with it. -/
theorem Moment.Prepared.keep (prepared : m.Prepared log) (sound : m.Sound asked)
    (tick : Tick s asked m lines m')
    (stage : m'.stage = m.stage ∨ m'.stage = .idle ∨ ∃ item, m'.stage = .held item none)
    (silent : lastPromise (log ++ lines) = lastPromise log) : m'.Prepared (log ++ lines) := by
  have stored : ∀ item, Items.Holds m'.ground.store item → item.sending = some .register →
      item.Settled (log ++ lines) .commit :=
    fun _ held reveals => prepared.stored_tick sound tick held reveals
  rcases stage with same | idle | ⟨item, held⟩
  · refine ⟨?_, ?_, ?_, ?_, ?_, stored⟩
    · intro item registration commitment there
      rw [silent]
      exact prepared.promise item registration commitment (same ▸ there)
    · intro item tx there
      obtain ⟨phase, waits, fetched⟩ := prepared.found item tx (same ▸ there)
      exact ⟨phase, waits, fetched.append _⟩
    · intro item tx there
      obtain ⟨phase, waits, settled⟩ := prepared.mined item tx (same ▸ there)
      exact ⟨phase, waits, settled.append _⟩
    · intro item there
      obtain ⟨phase, waits, settled⟩ := prepared.noted item (same ▸ there)
      exact ⟨phase, waits, settled.append _⟩
    · intro item written there reveals
      exact (prepared.writing item written (same ▸ there) reveals).append _
  · refine ⟨?_, ?_, ?_, ?_, ?_, stored⟩ <;> simp [idle]
  · refine ⟨?_, ?_, ?_, ?_, ?_, stored⟩ <;> simp [held]

theorem Moment.Prepared.tick (prepared : m.Prepared log) (sound : m.Sound asked)
    (tick : Tick s asked m lines m') : m'.Prepared (log ++ lines) := by
  cases tick with
  | @work item exchange stage g hand conducts replies on =>
    have entered := conducts.entered
    refine ⟨?_, ?_, ?_, ?_, ?_, ?_⟩
    · intro item' registration commitment there
      dsimp only at there
      rw [there] at entered
      rw [lastPromise_work]
      rcases entered with ⟨before, request, answer, opens, rfl⟩ | ⟨hand', controller, rfl⟩
      · rw [(Exchange.of_opens opens).1]
        exact prepared.promise _ _ _ before
      · rw [hand'] at hand
        cases hand
        rfl
    · intro item' tx there
      dsimp only at there
      rw [there] at entered
      obtain ⟨hand', phase, hash, connection, waits, recorded, rfl⟩ := entered
      rw [hand'] at hand
      cases hand
      refine ⟨phase, waits, hash, m.skip, m.ground.store, connection, recorded, ?_, ?_⟩
      · exact (sound.stage item hand').2
      · exact List.mem_append_right _ (List.mem_singleton_self _)
    · intro item' tx there
      dsimp only at there
      rw [there] at entered
      obtain ⟨before, connection, rfl⟩ := entered
      obtain ⟨phase, waits, fetched⟩ := prepared.found item' tx before
      rw [before] at hand
      cases hand
      exact ⟨phase, waits, fetched.settled _ _ _⟩
    · intro item' there
      dsimp only at there
      rw [there] at entered
      obtain ⟨tx, _, before, _⟩ := entered
      obtain ⟨phase, waits, settled⟩ := prepared.mined item' tx before
      exact ⟨phase, waits, settled.append _⟩
    · intro item' written there reveals
      dsimp only at there
      rw [there] at entered
      rcases entered with before | ⟨due, date, isDue, rfl⟩
      · exact (prepared.writing item' written before reveals).append _
      · obtain ⟨before, waits, rfl⟩ := isDue.reveals reveals
        obtain ⟨phase, waits', settled⟩ := prepared.noted item' before
        rw [waits] at waits'
        cases waits'
        exact settled.append _
    · intro item' held reveals
      exact prepared.stored_tick sound (.work hand conducts replies on) held reveals
  | search search =>
    refine prepared.keep sound (.search search : Tick s asked m _ _) ?_ (lastPromise_aside _ _ _)
    rcases search.to_rests.2 with same | held
    · exact .inl same
    · exact .inr (.inr held)
  | lodge lodge =>
    exact prepared.keep sound (.lodge lodge : Tick s asked m _ _) (.inl rfl) (lastPromise_aside _ _ _)
  | die kept =>
    exact prepared.keep sound (.die kept : Tick s asked m _ _) (.inr (.inl rfl)) (lastPromise_died _)
  | leave => exact prepared.keep sound (.leave : Tick s asked m _ _) (.inl rfl) (by rw [List.append_nil])
  | begin rests =>
    exact prepared.keep sound (.begin rests : Tick s asked m _ _) (.inl rfl) (by rw [List.append_nil])

theorem Conducts.of_committed {skip : Bool} {stage stage' : Stage} {exchange : Exchange}
    {commitment : Commitment} (conducts : Conducts skip stage exchange stage')
    (h : exchange.committed = some commitment) :
    ∃ item registration, stage = .held item (some (registration, commitment)) := by
  cases conducts with
  | commit =>
    cases h
    exact ⟨_, _, rfl⟩
  | opens opens =>
    rw [(Exchange.of_opens opens).2.2] at h
    cases h
  | _ => cases h

theorem Conducts.of_revealed {skip : Bool} {stage stage' : Stage} {exchange : Exchange}
    {registration : Registration} (conducts : Conducts skip stage exchange stage')
    (h : exchange.revealed = some registration) :
    ∃ item promise, stage = .held item promise ∧ item.sending = some .register := by
  cases conducts with
  | register sends => exact ⟨_, _, rfl, sends⟩
  | opens opens =>
    rw [(Exchange.of_opens opens).2.1] at h
    cases h
  | _ => cases h

/-- Whatever registration an exchange is about, it is that of the item in hand. -/
theorem Conducts.of_registration {skip : Bool} {stage stage' : Stage} {exchange : Exchange}
    {registration : Registration} (conducts : Conducts skip stage exchange stage')
    (h : exchange.registration = some registration) :
    ∃ item, stage.item = some item ∧ item.pledge = some registration := by
  cases conducts with
  | promise _ owned | register _ owned =>
    cases h
    exact ⟨_, rfl, by rw [Item.pledge, owned]; rfl⟩
  | opens opens =>
    obtain ⟨promised, revealed, _⟩ := Exchange.of_opens opens
    unfold Exchange.registration at h
    rw [revealed, promised] at h
    cases h
  | _ => cases h

/-- Every exchange comes after what has to come before it. -/
theorem Moment.Prepared.all (prepared : m.Prepared log) (sound : m.Sound asked)
    (tick : Tick s asked m lines m') : ∀ line ∈ lines, line.Prepared log := by
  intro line there
  cases tick with
  | @work item exchange stage g hand conducts replies on =>
    cases List.mem_singleton.1 there
    refine ⟨fun commitment commits => ?_, fun registration reveals => ?_⟩
    · obtain ⟨held, promised, inHand⟩ := conducts.of_committed commits
      rw [inHand] at hand
      cases hand
      exact ⟨promised, prepared.promise _ _ _ inHand⟩
    · obtain ⟨held, promise, inHand, sends⟩ := conducts.of_revealed reveals
      rw [inHand] at hand
      cases hand
      have stored := sound.stage item (inHand ▸ rfl)
      obtain ⟨hash, recorded, confirmed⟩ := prepared.stored item stored sends
      exact ⟨item, hash, stored.2, recorded, confirmed⟩
  | search | lodge | die =>
    cases List.mem_singleton.1 there
    trivial
  | leave | begin => cases there

/-- Whatever registrations were asked about for an item are those of the item in the store. -/
def Moment.Pledged (log : List Line) (m : Moment) : Prop :=
  ∀ index skip before exchange registration, Line.work index skip before exchange ∈ log →
    exchange.registration = some registration →
      ∃ item, Items.Holds m.ground.store item ∧ item.index = index ∧ item.pledge = some registration

theorem Moment.Pledged.tick (pledged : m.Pledged log) (sound : m.Sound asked)
    (tick : Tick s asked m lines m') : m'.Pledged (log ++ lines) := by
  have kept : ∀ {item : Item} {registration}, Items.Holds m.ground.store item →
      item.pledge = some registration → ∃ item', Items.Holds m'.ground.store item' ∧
        item'.index = item.index ∧ item'.pledge = some registration := by
    intro item registration held pledge
    obtain ⟨item', held', origin⟩ := tick.keeps_origin sound held
    exact ⟨item', held', Item.index_eq_of_origin origin, (pledge_eq_of_origin origin).trans pledge⟩
  intro index skip before exchange registration there about
  rcases List.mem_append.1 there with there | there
  · obtain ⟨item, held, rfl, pledge⟩ := pledged _ _ _ _ _ there about
    exact kept held pledge
  · cases tick with
    | @work item _ _ _ hand conducts =>
      cases List.mem_singleton.1 there
      obtain ⟨item, hand', pledge⟩ := conducts.of_registration about
      rw [hand'] at hand
      cases hand
      exact kept (sound.stage item hand') pledge
    | search | lodge | die => cases List.mem_singleton.1 there
    | leave | begin => cases there

theorem Moment.prepared_start (ledger : Ledger) : (Moment.start ledger).Prepared [] where
  promise _ _ _ absent := nomatch absent
  found _ _ absent := nomatch absent
  mined _ _ absent := nomatch absent
  noted _ absent := nomatch absent
  writing _ _ absent := nomatch absent
  stored _ held := nomatch held.2

theorem Reached.prepared {ledger : Ledger} (reached : Reached s asked (.start ledger) log m) :
    EachLine Line.Prepared log ∧ m.Pledged log := by
  let holds (log : List Line) (m : Moment) :=
    m.Prepared log ∧ m.Pledged log ∧ EachLine Line.Prepared log
  have start : holds [] (.start ledger) :=
    ⟨Moment.prepared_start ledger, fun _ _ _ _ _ absent => (nomatch absent), EachLine.nil⟩
  have kept : ∀ {log m lines m'}, m.Sound asked → holds log m → Tick s asked m lines m' →
      holds (log ++ lines) m' := by
    rintro log m lines m' sound ⟨prepared, pledged, each⟩ tick
    refine ⟨prepared.tick sound tick, pledged.tick sound tick, ?_⟩
    have fits := prepared.all sound tick
    rcases tick.lines_cases with rfl | ⟨line, rfl⟩
    · rwa [List.append_nil]
    · exact each.concat (fits line (List.mem_singleton_self _))
  obtain ⟨_, pledged, each⟩ :=
    Moment.Sound.invariant holds (Moment.sound_start ledger) start kept reached
  exact ⟨each, pledged⟩

end

namespace Chronicle

/-- In every chronicle, each commitment that is submitted for an item is the one that was given when a
commitment was last asked for, and that was for this item; each registration that is revealed comes
after the transaction found by the commit hash on record was said to have taken effect; and all
registrations that are revealed or asked a commitment for on behalf of one item are the same. -/
theorem reveal_after_commit (events : List Event) :
    EachLine Line.Prepared (run events).log ∧
    ∀ index skip before exchange registration skip' before' exchange' registration',
      Line.work index skip before exchange ∈ (run events).log →
      Line.work index skip' before' exchange' ∈ (run events).log →
      exchange.registration = some registration → exchange'.registration = some registration' →
        registration = registration' := by
  obtain ⟨m, _, _, reached, _⟩ :=
    run_reached events [] (by rw [List.append_nil]; exact within_brought events) (.fresh 0)
  obtain ⟨each, pledged⟩ := reached.prepared
  refine ⟨each, ?_⟩
  intro index skip before exchange registration skip' before' exchange' registration' there there'
    about about'
  obtain ⟨item, held, own, pledge⟩ := pledged _ _ _ _ _ there about
  obtain ⟨item', held', own', pledge'⟩ := pledged _ _ _ _ _ there' about'
  rw [Items.holds_inj held held' (own.trans own'.symm), pledge'] at pledge
  exact (Option.some.inj pledge).symm

end Chronicle

end Registrar
