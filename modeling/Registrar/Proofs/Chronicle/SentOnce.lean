import Mathlib.Data.List.Induction
import Registrar.Proofs.Chronicle.History

/-!
Nothing is sent twice. For every item and phase, the gateway accepts at most one submission more than
there are accepted ones whose following write of the item came to nothing, because it failed or because
all died before; and a submission is only made for an item with nothing of its phase on record
(`sent_once`).
-/

namespace Registrar

open Item (Phase Status)

/-- Whether an exchange is a submission of a phase that was accepted. -/
def Exchange.accepts (phase : Phase) (exchange : Exchange) : Bool :=
  match exchange.submitted with
  | some (other, .ok _) => other = phase
  | some (_, .error _) | none => false

/-- Whether an item was replaced, if an exchange decides that: it is first looked for, and then
written. -/
def Exchange.replaced (index : Int64) : Exchange → Option Bool
  | ⟨.store (.exists _), .ok true⟩ => none
  | ⟨.store (.exists key), _⟩ => if key = Items.key index then some false else none
  | ⟨.store (.put key _), answer⟩ => if key = Items.key index then some answer.isOk else none
  | _ => none

/-- What became of the submissions of one phase for one item. -/
structure Debt where
  accepted : Nat
  /-- Those after which the item could not be written. -/
  failed : Nat
  /-- Those after which all died before the item was written. -/
  cut : Nat
  /-- Whether the item is still to be written after the last one. -/
  owed : Bool

namespace Debt

def zero : Debt := ⟨0, 0, 0, false⟩

def accept (debt : Debt) : Debt := { debt with accepted := debt.accepted + 1, owed := true }

/-- The debt after the item was replaced or not. -/
def settle (debt : Debt) : Bool → Debt
  | true => { debt with owed := false }
  | false => { debt with failed := debt.failed + debt.owed.toNat, owed := false }

def die (debt : Debt) : Debt := { debt with cut := debt.cut + debt.owed.toNat, owed := false }

/-- The debt after one more line. -/
def note (index : Int64) (phase : Phase) (debt : Debt) : Line → Debt
  | .work other _ _ exchange =>
    if other ≠ index then debt
    else if exchange.accepts phase then debt.accept
    else match exchange.replaced index with
      | some success => debt.settle success
      | none => debt
  | .aside _ _ => debt
  | .died => debt.die

/-- The debt of a log. -/
def of (index : Int64) (phase : Phase) (log : List Line) : Debt := log.foldl (note index phase) zero

theorem of_append (index : Int64) (phase : Phase) (log lines : List Line) :
    of index phase (log ++ lines) = lines.foldl (note index phase) (of index phase log) :=
  List.foldl_append

end Debt

/-- Whether an item is still to be written after its transaction of a phase was accepted. -/
def Stage.owes (index : Int64) (phase : Phase) : Stage → Bool
  | .sent item other _ => item.index = index && other = phase
  | .writing item written =>
    item.index = index && item.sent phase = .nothing && written.sent phase ≠ .nothing
  | _ => false

theorem Stage.owes_other {stage : Stage} {index : Int64} (phase : Phase)
    (apart : ∀ item, stage.item = some item → item.index ≠ index) : stage.owes index phase = false := by
  cases stage with
  | sent item | writing item => simp [owes, apart item rfl]
  | _ => rfl

theorem Stage.Rests.owes {stage : Stage} (rests : stage.Rests) (index : Int64) (phase : Phase) :
    stage.owes index phase = false := by
  rcases rests with rfl | ⟨_, _, rfl⟩ <;> rfl

/-- Writing what is due is owed just as the submission was. -/
theorem Stage.Due.owes {skip : Bool} {stage : Stage} {item due : Item}
    (isDue : Due skip stage item due) (neat : item.Neat) (date : UInt64) (index : Int64)
    (phase : Phase) :
    (Stage.writing item (due.dated date)).owes index phase = stage.owes index phase := by
  have same : ∀ {written : Item}, written.sent phase = item.sent phase →
      (Stage.writing item (written.dated date)).owes index phase = false := by
    intro written same
    simp [Stage.owes, same]
  cases isDue with
  | failed => exact same (Item.sent_failed item phase)
  | noted => exact same (Item.sent_advanced item phase)
  | skipped => exact same (by cases phase <;> rfl)
  | @sent _ other tx sends =>
    by_cases own : phase = other
    · subst own
      simp [Stage.owes, Item.sent_record, neat.sending sends, Item.Sent.nothing]
    · refine (same ?_).trans ?_
      · rw [Item.sent_advanced, Item.sent_record, if_neg own]
      · simp [Stage.owes, Ne.symm own]

section

variable {s : Surroundings} {asked : Asked} {m m' : Moment} {lines log : List Line} {item : Item}
  {skip : Bool} {stage stage' : Stage} {exchange : Exchange}

/-- What an exchange that submits nothing means for what is owed: the item was written or not, or
nothing changes. -/
theorem Conducts.debts (conducts : Conducts skip stage exchange stage')
    (silent : exchange.submitted = none) (hand : stage.item = some item) (neat : item.Neat)
    (phase : Phase) :
    (∃ success, exchange.replaced item.index = some success ∧
        stage'.owes item.index phase = false ∧
        (success = true → ∃ written, stage = .writing item written ∧ stage' = .held written none)) ∨
      (exchange.replaced item.index = none ∧
        stage'.owes item.index phase = stage.owes item.index phase) := by
  cases conducts with
  | opens | promise => exact .inr ⟨rfl, rfl⟩
  | commit | register | renew => cases silent
  | @find _ _ _ _ _ answer => rcases answer with error | tx <;> exact .inr ⟨rfl, rfl⟩
  | @await _ _ _ answer => rcases answer with error | _ | _ <;> exact .inr ⟨rfl, rfl⟩
  | @note item' tx answer =>
    have apart : Nonce.key tx.sender ≠ Items.key item.index := (Items.key_ne_nonce _ _).symm
    refine .inr ⟨by simp [Exchange.replaced, apart], ?_⟩
    rcases answer with error | ⟨⟩ <;> rfl
  | date due =>
    rw [Stage.item_of_due due] at hand
    cases hand
    exact .inr ⟨rfl, due.owes neat _ _ _⟩
  | @check item' written answer =>
    cases hand
    rcases answer with error | _ | _
    · exact .inl ⟨false, if_pos rfl, rfl, nofun⟩
    · exact .inl ⟨false, if_pos rfl, rfl, nofun⟩
    · exact .inr ⟨rfl, rfl⟩
  | @write item' written answer =>
    cases hand
    rcases answer with error | ⟨⟩
    · exact .inl ⟨false, if_pos rfl, rfl, nofun⟩
    · exact .inl ⟨true, if_pos rfl, rfl, fun _ => ⟨written, rfl, rfl⟩⟩

/-- Nothing of a phase is on record for the item with an index. -/
def Unrecorded (store : Store) (index : Int64) (phase : Phase) : Prop :=
  ∀ item, Items.Holds store item → item.index = index → item.sent phase = .nothing

/-- What was counted so far. -/
structure Moment.Counted (index : Int64) (phase : Phase) (log : List Line) (m : Moment) : Prop where
  owed : (Debt.of index phase log).owed = m.stage.owes index phase
  most : (Debt.of index phase log).accepted ≤
    1 + (Debt.of index phase log).failed + (Debt.of index phase log).cut
  unrecorded : Unrecorded m.ground.store index phase →
    (Debt.of index phase log).accepted ≤ (Debt.of index phase log).failed +
      (Debt.of index phase log).cut + (Debt.of index phase log).owed.toNat

theorem Item.Advances.keeps_sent {next : Item} (advances : item.Advances skip next) {phase : Phase}
    (nothing : next.sent phase = .nothing) : item.sent phase = .nothing := by
  cases advances with
  | @sent other _ _ clean noted =>
    by_cases same : phase = other
    · rw [same]
      exact clean
    · rw [← noted.others phase same]
      exact nothing
  | confirmed | failed | skipped => cases phase <;> exact nothing

/-- What is on record for an item stays on record. -/
theorem Tick.unrecorded (tick : Tick s asked m lines m') (sound : m.Sound asked) {index : Int64}
    {phase : Phase} (unrecorded : Unrecorded m'.ground.store index phase) :
    Unrecorded m.ground.store index phase := by
  intro item held own
  rcases tick.stores sound index with ⟨_, same⟩ | ⟨old, written, before, own', _, put⟩ |
    ⟨_, _, _, free, _⟩
  · refine unrecorded item ⟨held.1, ?_⟩ own
    rw [own, same, ← own]
    exact held.2
  · have advances := sound.writing old written before
    have was := sound.stage old (before ▸ rfl)
    have holds : Items.Holds m'.ground.store written := by
      rw [put]
      exact (Items.holds_withItem (advances.fits was.1)).2 (.inl rfl)
    rw [Items.holds_inj held was (own.trans own'.symm)]
    exact advances.keeps_sent (unrecorded written holds (advances.index.trans own'))
  · rw [← own, held.2] at free
    cases free

theorem Moment.Counted.keep {index : Int64} {phase : Phase} (counted : m.Counted index phase log)
    (sound : m.Sound asked) (tick : Tick s asked m lines m')
    (same : Debt.of index phase (log ++ lines) = Debt.of index phase log)
    (owes : m'.stage.owes index phase = m.stage.owes index phase) :
    m'.Counted index phase (log ++ lines) where
  owed := by rw [same, owes, counted.owed]
  most := same ▸ counted.most
  unrecorded unrecorded := same ▸ counted.unrecorded (tick.unrecorded sound unrecorded)

theorem Exchange.replaced_of_submitted {submission : Phase × Receipt}
    (h : exchange.submitted = some submission) (index : Int64) : exchange.replaced index = none := by
  unfold submitted at h
  split at h <;> first | rfl | cases h

/-- A submission is owed for once it is accepted. -/
theorem Moment.Counted.submit {phase other : Phase} {receipt : Receipt} {g : Ground}
    {promise : Option (Registration × Commitment)} (counted : m.Counted item.index phase log)
    (sound : m.Sound asked) (held : m.stage = .held item promise) (sends : item.sending = some other)
    (submits : exchange.submitted = some (other, receipt))
    (tick : Tick s asked m [.work item.index m.skip m.ground.store exchange]
      { m with ground := g, stage := .submitted item other receipt }) :
    Moment.Counted item.index phase (log ++ [.work item.index m.skip m.ground.store exchange])
      { m with ground := g, stage := .submitted item other receipt } := by
  have noted := Debt.of_append item.index phase log
    [.work item.index m.skip m.ground.store exchange]
  simp only [List.foldl_cons, List.foldl_nil, Debt.note, Exchange.accepts, submits,
    Exchange.replaced_of_submitted submits, ne_eq, not_true_eq_false, if_false] at noted
  have free : m.stage.owes item.index phase = false := held ▸ rfl
  cases receipt with
  | error error => exact counted.keep sound tick (noted.trans (by simp)) free.symm
  | ok tx =>
    by_cases own : other = phase
    · subst own
      have held := sound.stage item (held ▸ rfl)
      have clean := (sound.neat item held).sending sends
      have unrecorded : Unrecorded m.ground.store item.index other := by
        intro item' held' own
        rw [Items.holds_inj held' held own]
        exact clean
      have before := counted.unrecorded unrecorded
      rw [counted.owed, free] at before
      have accepted : Debt.of item.index other
          (log ++ [.work item.index m.skip m.ground.store exchange]) =
          (Debt.of item.index other log).accept := noted.trans (by simp)
      refine ⟨?_, ?_, fun _ => ?_⟩ <;> rw [accepted]
      · simp [Debt.accept, Stage.submitted, Stage.owes]
      · simp only [Debt.accept, Bool.toNat_false] at before ⊢
        omega
      · simp only [Debt.accept, Bool.toNat_false, Bool.toNat_true] at before ⊢
        omega
    · refine counted.keep sound tick (noted.trans (by simp [own])) ?_
      rw [free]
      simp [Stage.submitted, Stage.owes, own]

/-- An exchange that submits nothing counts if the item was written or not. -/
theorem Moment.Counted.other {phase : Phase} {g : Ground} (counted : m.Counted item.index phase log)
    (sound : m.Sound asked) (hand : m.stage.item = some item)
    (conducts : Conducts m.skip m.stage exchange stage) (silent : exchange.submitted = none)
    (tick : Tick s asked m [.work item.index m.skip m.ground.store exchange]
      { m with ground := g, stage := stage }) :
    Moment.Counted item.index phase (log ++ [.work item.index m.skip m.ground.store exchange])
      { m with ground := g, stage := stage } := by
  have noted := Debt.of_append item.index phase log
    [.work item.index m.skip m.ground.store exchange]
  simp only [List.foldl_cons, List.foldl_nil, Debt.note, Exchange.accepts, silent, ne_eq,
    not_true_eq_false, if_false] at noted
  have held := sound.stage item hand
  rcases conducts.debts silent hand (sound.neat item held) phase with
    ⟨success, replaced, settled, writes⟩ | ⟨replaced, owes⟩
  · rw [replaced] at noted
    have most := counted.most
    have before := fun unrecorded => counted.unrecorded (tick.unrecorded sound unrecorded)
    refine ⟨?_, ?_, fun unrecorded => ?_⟩ <;> rw [noted] <;> cases success
    · exact settled.symm
    · exact settled.symm
    · simp only [Bool.false_eq_true, if_false, Debt.settle]
      omega
    · exact most
    · have bound := before unrecorded
      simp only [Bool.false_eq_true, if_false, Debt.settle, Bool.toNat_false]
      omega
    · -- What was written has nothing on record, so nothing was owed.
      obtain ⟨written, writing, rfl⟩ := writes rfl
      have written' := (sound.tick tick).stage written rfl
      have nothing := unrecorded written written' (sound.writing item written writing).index
      have owed : (Debt.of item.index phase log).owed = false := by
        rw [counted.owed, writing]
        simp [Stage.owes, nothing]
      have bound := before unrecorded
      rw [owed] at bound
      exact bound
  · rw [replaced] at noted
    exact counted.keep sound tick (noted.trans (by simp)) owes

/-- The work on an item counts for it alone. -/
theorem Moment.Counted.work {index : Int64} {phase : Phase} (counted : m.Counted index phase log)
    (sound : m.Sound asked) (hand : m.stage.item = some item)
    (conducts : Conducts m.skip m.stage exchange stage) {g : Ground}
    (tick : Tick s asked m [.work item.index m.skip m.ground.store exchange]
      { m with ground := g, stage := stage }) :
    Moment.Counted index phase (log ++ [.work item.index m.skip m.ground.store exchange])
      { m with ground := g, stage := stage } := by
  by_cases own : item.index = index
  · subst own
    cases submits : exchange.submitted with
    | none => exact counted.other sound hand conducts submits tick
    | some submission =>
      obtain ⟨held, promise, inHand, sends, rfl⟩ := conducts.of_submitted submits
      rw [inHand] at hand
      cases hand
      exact counted.submit sound inHand sends submits tick
  · have same : Debt.of index phase (log ++ [.work item.index m.skip m.ground.store exchange]) =
        Debt.of index phase log := (Debt.of_append _ _ _ _).trans (if_pos own)
    have before : m.stage.owes index phase = false := by
      refine Stage.owes_other phase fun item' hand' => ?_
      rw [hand] at hand'
      cases hand'
      exact own
    have after : stage.owes index phase = false := by
      refine Stage.owes_other phase fun item' hand' => ?_
      rw [sound.index conducts hand hand']
      exact own
    exact counted.keep sound tick same (after.trans before.symm)

theorem Moment.Counted.tick {index : Int64} {phase : Phase} (counted : m.Counted index phase log)
    (sound : m.Sound asked) (tick : Tick s asked m lines m') :
    m'.Counted index phase (log ++ lines) := by
  cases tick with
  | work hand conducts replies on =>
    exact counted.work sound hand conducts (.work hand conducts replies on)
  | @search exchange stage search =>
    refine counted.keep sound (.search search : Tick s asked m _ _) (Debt.of_append _ _ _ _) ?_
    obtain ⟨rests, same | ⟨item, held⟩⟩ := search.to_rests
    · exact congrArg (Stage.owes index phase) same
    · exact ((congrArg (Stage.owes index phase) held).trans rfl).trans (rests.owes index phase).symm
  | lodge lodge =>
    exact counted.keep sound (.lodge lodge : Tick s asked m _ _) (Debt.of_append _ _ _ _) rfl
  | die kept =>
    have died : Debt.of index phase (log ++ [.died]) = (Debt.of index phase log).die :=
      Debt.of_append _ _ _ _
    refine ⟨?_, ?_, fun unrecorded => ?_⟩ <;> rw [died]
    · rfl
    · have most := counted.most
      simp only [Debt.die]
      omega
    · have before := counted.unrecorded unrecorded
      simp only [Debt.die, Bool.toNat_false]
      omega
  | leave => exact counted.keep sound (.leave : Tick s asked m _ _) (by rw [List.append_nil]) rfl
  | begin rests =>
    exact counted.keep sound (.begin rests : Tick s asked m _ _) (by rw [List.append_nil]) rfl

/-- What a submission is made for: the item in the store has the status to be sent in its phase, and
nothing of it is on record. -/
def Line.Unsent : Line → Prop
  | .work index _ before exchange => ∀ phase receipt, exchange.submitted = some (phase, receipt) →
    ∃ item, before.get? (Items.key index) = some (Items.encode item) ∧ item.sending = some phase ∧
      item.sent phase = .nothing
  | .aside _ _ | .died => True

theorem Tick.unsent (tick : Tick s asked m lines m') (sound : m.Sound asked) :
    ∀ line ∈ lines, line.Unsent := by
  intro line there
  cases tick with
  | @work item exchange stage g hand conducts replies on =>
    cases List.mem_singleton.1 there
    intro phase receipt submits
    obtain ⟨held, promise, inHand, sends, _⟩ := conducts.of_submitted submits
    rw [inHand] at hand
    cases hand
    have stored := sound.stage item (inHand ▸ rfl)
    exact ⟨item, stored.2, sends, (sound.neat item stored).sending sends⟩
  | search | lodge | die =>
    cases List.mem_singleton.1 there
    trivial
  | leave | begin => cases there

theorem Reached.counted {ledger : Ledger} (reached : Reached s asked (.start ledger) log m)
    (index : Int64) (phase : Phase) :
    m.Counted index phase log ∧ ∀ line ∈ log, line.Unsent := by
  let holds (log : List Line) (m : Moment) :=
    m.Counted index phase log ∧ ∀ line ∈ log, line.Unsent
  have start : holds [] (.start ledger) :=
    ⟨⟨rfl, Nat.zero_le _, fun _ => Nat.zero_le _⟩, fun _ absent => nomatch absent⟩
  have kept : ∀ {log m lines m'}, m.Sound asked → holds log m → Tick s asked m lines m' →
      holds (log ++ lines) m' := by
    rintro log m lines m' sound ⟨counted, unsent⟩ tick
    refine ⟨counted.tick sound tick, fun line there => ?_⟩
    rcases List.mem_append.1 there with there | there
    · exact unsent line there
    · exact tick.unsent sound line there
  exact Moment.Sound.invariant holds (Moment.sound_start ledger) start kept reached

end

theorem Debt.cut_note (index : Int64) (phase : Phase) (debt : Debt) (line : Line)
    (whole : line = .died → debt.owed = false) : (note index phase debt line).cut = debt.cut := by
  cases line with
  | work other skip before exchange =>
    simp only [note]
    split
    · rfl
    · split
      · rfl
      · split
        · rename_i success _
          cases success <;> rfl
        · rfl
  | aside => rfl
  | died =>
    have whole : debt.owed = false := whole rfl
    simp [note, die, whole]

/-- Where nothing died before an item was written, nothing was cut off. -/
theorem Debt.cut_eq_zero {index : Int64} {phase : Phase} {log : List Line}
    (whole : EachLine (fun past line => line = .died → (of index phase past).owed = false) log) :
    (of index phase log).cut = 0 := by
  induction log using List.reverseRecOn with
  | nil => rfl
  | append_singleton log line ih =>
    obtain ⟨before, last⟩ := whole.of_concat
    rw [of_append]
    exact (cut_note index phase _ line last).trans (ih before)

namespace Chronicle

/-- In every chronicle, the submissions of a phase that were accepted for an item are at most one more
than those after which the item could not be written or all died before it was, and no more than those
after which it could not be written where none died so; and each submission was made for an item with
nothing of its phase on record. -/
theorem sent_once (events : List Event) (index : Int64) (phase : Phase) :
    let debt := Debt.of index phase (run events).log
    debt.accepted ≤ 1 + debt.failed + debt.cut ∧
    (EachLine (fun past line => line = .died → (Debt.of index phase past).owed = false)
      (run events).log → debt.accepted ≤ 1 + debt.failed) ∧
    ∀ line ∈ (run events).log, line.Unsent := by
  obtain ⟨m, _, _, reached, _⟩ :=
    run_reached events [] (by rw [List.append_nil]; exact within_brought events) (.fresh 0)
  obtain ⟨counted, unsent⟩ := reached.counted index phase
  refine ⟨counted.most, fun whole => ?_, unsent⟩
  have most := counted.most
  rw [Debt.cut_eq_zero whole] at most
  exact most

end Chronicle

end Registrar
