import Registrar.Proofs.Nonce.InStep
import Registrar.Proofs.Scene

/-!
What is known of an item while it is in the hands of a worker, or on its way into the store. The store
need not say yet what the ledger already shows; what holds nevertheless is told by what is fit to be
written back. `Carries.kept` says what a property of store and ledger needs for it to hold in every
scene: one law for each thing that is done, none of them about the hands.
-/

namespace Registrar

open Item (Phase Status)
open Ledger (Profile Submission)

/-- The hashes of the transactions that were accepted. -/
def hashes (heard : List Receipt) : List TxHash := (accepted heard).map (·.hash)

theorem hashes_append (before receipts : List Receipt) :
    hashes (before ++ receipts) = hashes before ++ hashes receipts := by
  unfold hashes accepted
  rw [List.filterMap_append, List.map_append]

theorem length_hashes_le (heard : List Receipt) : (hashes heard).length ≤ heard.length := by
  unfold hashes accepted
  rw [List.length_map]
  exact List.length_filterMap_le _ _

/-- What is known of what a worker has in hand, given what may be written in the place of an item. -/
def Grasps (ready : Item → Item → Prop) (g : Ground) : Hand → Prop
  | .free => True
  | .held item => Items.Holds g.store item
  | .offered item s _ => Items.Holds g.store item ∧ item.submission = some s
  | .found item tx => Items.Holds g.store item ∧ item.Waits g tx
  | .mined item tx => Items.Holds g.store item ∧ item.Waits g tx ∧ g.ledger.landed tx.hash = true
  | .writing item => ∃ old, ready old item

/-- What is known of what is on the desk. -/
def Brings (g : Ground) : Option Item → Prop
  | none => True
  | some item => item.New ∧ g.store.get? (Items.key item.index) = none

/-- What a property of store and ledger needs to hold in every scene. The hashes are those of the
transactions accepted so far, and `sane` is what is assumed of them. -/
structure Carries (allowed : Profile → Prop) (sane : List TxHash → Prop)
    (holds : List TxHash → Ground → Prop) (ready : List TxHash → Ground → Item → Item → Prop) :
    Prop where
  sane_before : ∀ {known later}, sane (known ++ later) → sane known
  tidy : ∀ {known g}, holds known g → Items.Tidy g.store
  place : ∀ {known g old item}, ready known g old item →
    Items.Holds g.store old ∧ item.origin = old.origin
  accept : ∀ {known g item s} {profile : Profile}, allowed profile → holds known g →
    Items.Holds g.store item → item.submission = some s →
    let nonce := g.ledger.minedNonce profile.admin
    let tx := g.ledger.nextTx profile.admin nonce
    sane (known ++ [tx.hash]) →
    holds (known ++ [tx.hash]) (g.accepting profile.admin nonce s) ∧
      ready (known ++ [tx.hash]) (g.accepting profile.admin nonce s) item
        (item.record tx s.phase).advanced
  fail : ∀ {known g item}, sane known → holds known g → Items.Holds g.store item →
    item.status.isTerminal = false → ready known g item item.failed
  note : ∀ {known g item tx}, sane known → holds known g → Items.Holds g.store item →
    item.Waits g tx → g.ledger.landed tx.hash = true →
    holds known (g.noting tx) ∧ ready known (g.noting tx) item item.advanced
  write : ∀ {known g old item} (date : UInt64), holds known g → ready known g old item →
    holds known (g.withItem (item.dated date))
  insert : ∀ {known g item}, holds known g → item.New →
    g.store.get? (Items.key item.index) = none → holds known (g.withItem item)
  ready_insert : ∀ {known g old item other}, ready known g old item → other.New →
    g.store.get? (Items.key other.index) = none → ready known (g.withItem other) old item

variable {g : Ground} {hand hand' : Hand} {desk desk' : Option Item} {item old : Item}
  {ready ready' : Item → Item → Prop}

theorem Brings.withItem (brings : Brings g desk)
    (present : g.store.get? (Items.key item.index) ≠ none) : Brings (g.withItem item) desk := by
  cases desk with
  | none => trivial
  | some other =>
    obtain ⟨new, absent⟩ := brings
    refine ⟨new, ?_⟩
    unfold Ground.withItem Store.withItem
    rw [Store.get?_put, if_neg]
    · exact absent
    · intro same
      rw [same] at absent
      exact present absent

theorem Brings.noting (brings : Brings g desk) (tx : TxHandle) : Brings (g.noting tx) desk := by
  cases desk with
  | none => trivial
  | some other =>
    obtain ⟨new, absent⟩ := brings
    refine ⟨new, ?_⟩
    unfold Ground.noting Store.withNonce
    rw [Store.get?_put, if_neg (Items.key_ne_nonce _ _)]
    exact absent

theorem holds_insert (held : Items.Holds g.store old) (new : item.New)
    (absent : g.store.get? (Items.key item.index) = none) :
    Items.Holds (g.withItem item).store old := by
  apply (Items.holds_withItem new.1).2
  right
  refine ⟨fun same => ?_, held⟩
  have there := held.2
  rw [same, absent] at there
  cases there

/-- A new item leaves what is in hand as it is. -/
theorem Grasps.insert (grasps : Grasps ready g hand) (new : item.New)
    (absent : g.store.get? (Items.key item.index) = none)
    (kept : ∀ old written, ready old written → ready' old written) :
    Grasps ready' (g.withItem item) hand := by
  cases hand with
  | free => trivial
  | held other => exact holds_insert grasps new absent
  | offered other s nonce => exact ⟨holds_insert grasps.1 new absent, grasps.2⟩
  | found other tx => exact ⟨holds_insert grasps.1 new absent, grasps.2⟩
  | mined other tx => exact ⟨holds_insert grasps.1 new absent, grasps.2⟩
  | writing other =>
    obtain ⟨old, is_ready⟩ := grasps
    exact ⟨old, kept old other is_ready⟩

/-- A property together with what is known of the hands. -/
structure Sound (holds : List TxHash → Ground → Prop)
    (ready : List TxHash → Ground → Item → Item → Prop) (g : Ground) (hand : Hand)
    (desk : Option Item) (heard : List Receipt) : Prop where
  holds : holds (hashes heard) g
  hand : Grasps (ready (hashes heard) g) g hand
  desk : Brings g desk

namespace Carries

variable {allowed : Profile → Prop} {sane : List TxHash → Prop}
  {holds : List TxHash → Ground → Prop} {ready : List TxHash → Ground → Item → Item → Prop}
  {profile : Profile} {faults : Faults} {g' : Ground} {before receipts : List Receipt}

/-- What a worker does keeps the property, and what is known of the hands. -/
theorem move (carries : Carries allowed sane holds ready) (ours : allowed profile)
    (sound : Sound holds ready g hand desk before) (distinct : sane (hashes (before ++ receipts)))
    (moved : Move profile faults g hand receipts g' hand') :
    Sound holds ready g' hand' desk (before ++ receipts) := by
  obtain ⟨is, grasps, brings⟩ := sound
  rw [hashes_append] at distinct
  have sane_now : sane (hashes before) := carries.sane_before distinct
  cases moved with
  | offer submits offered =>
    rw [List.append_nil]
    exact ⟨is, ⟨grasps, submits⟩, brings⟩
  | @accept _ item s nonce same =>
    obtain ⟨held, submits⟩ := grasps
    subst same
    obtain ⟨is', is_ready⟩ := carries.accept ours is held submits distinct
    have known : hashes (before ++ [.ok (g.ledger.nextTx profile.admin
        (g.ledger.minedNonce profile.admin))]) = hashes before ++ _ := hashes_append _ _
    refine ⟨known ▸ is', ⟨item, ?_⟩, brings⟩
    rw [known]
    exact is_ready
  | @reject _ item s nonce error why =>
    obtain ⟨held, submits⟩ := grasps
    have same : hashes (before ++ [.error error]) = hashes before := by
      rw [hashes_append]
      exact List.append_nil _
    refine ⟨same.symm ▸ is, ⟨item, ?_⟩, brings⟩
    rw [same]
    exact carries.fail sane_now is held (live_of_submission submits)
  | find waits recorded there =>
    rw [List.append_nil]
    exact ⟨is, ⟨grasps, _, _, _, waits, recorded, there, rfl⟩, brings⟩
  | mined landed =>
    obtain ⟨held, waits⟩ := grasps
    rw [List.append_nil]
    exact ⟨is, ⟨held, waits, landed⟩, brings⟩
  | @lose _ item tx why =>
    obtain ⟨held, waits⟩ := grasps
    rw [List.append_nil]
    exact ⟨is, ⟨item, carries.fail sane_now is held (Item.Waits.live waits)⟩, brings⟩
  | @note _ item tx =>
    obtain ⟨held, waits, landed⟩ := grasps
    obtain ⟨is', is_ready⟩ := carries.note sane_now is held waits landed
    rw [List.append_nil]
    exact ⟨is', ⟨item, is_ready⟩, brings.noting tx⟩
  | @giveUp _ item live why =>
    rw [List.append_nil]
    exact ⟨is, ⟨item, carries.fail sane_now is grasps live⟩, brings⟩
  | @write _ item date =>
    obtain ⟨old, is_ready⟩ := grasps
    obtain ⟨held, origin⟩ := carries.place is_ready
    have fits : (item.dated date).Fits := (Item.fits_iff_of_origin origin).2 held.1
    have index : (item.dated date).index = old.index := Item.index_eq_of_origin origin
    have present : g.store.get? (Items.key (item.dated date).index) ≠ none := by
      rw [index, held.2]
      exact Option.some_ne_none _
    rw [List.append_nil]
    exact ⟨carries.write date is is_ready, (Items.holds_withItem fits).2 (.inl rfl),
      brings.withItem present⟩
  | drop why =>
    rw [List.append_nil]
    exact ⟨is, trivial, brings⟩

theorem act (carries : Carries allowed sane holds ready) (ours : allowed profile)
    (sound : Sound holds ready g hand desk before) (distinct : sane (hashes (before ++ receipts)))
    (acted : Act profile faults g hand receipts g' hand') :
    Sound holds ready g' hand' desk (before ++ receipts) := by
  cases acted with
  | take there begins decoded =>
    rw [List.append_nil]
    obtain ⟨other, held, rfl⟩ := carries.tidy sound.holds _ _ there begins
    rw [held.2] at there
    cases there
    rw [Items.decode_encode held.1] at decoded
    cases decoded
    exact ⟨sound.holds, held, sound.desk⟩
  | move moved => exact carries.move ours sound distinct moved

theorem file (carries : Carries allowed sane holds ready)
    (sound : Sound holds ready g hand desk before) (moved : Filing g desk receipts g' desk') :
    Sound holds ready g' hand desk' (before ++ receipts) := by
  obtain ⟨is, grasps, brings⟩ := sound
  cases moved with
  | see new absent =>
    rw [List.append_nil]
    refine ⟨is, grasps, new, ?_⟩
    unfold Store.contains at absent
    exact Option.not_isSome_iff_eq_none.1 fun there => by rw [there] at absent; cases absent
  | insert =>
    obtain ⟨new, absent⟩ := brings
    rw [List.append_nil]
    refine ⟨carries.insert is new absent, ?_, trivial⟩
    exact grasps.insert new absent fun old written is_ready => carries.ready_insert is_ready new absent
  | drop =>
    rw [List.append_nil]
    exact ⟨is, grasps, trivial⟩

/-- What is carried holds in every scene. -/
theorem kept (carries : Carries allowed sane holds ready) :
    Scene.Kept faults allowed fun g hand desk heard =>
      sane (hashes heard) → Sound holds ready g hand desk heard where
  act {_ _ _ _ before receipts _ _} ours sound acted distinct := by
    have earlier : sane (hashes before) := by
      rw [hashes_append] at distinct
      exact carries.sane_before distinct
    exact carries.act ours (sound earlier) distinct acted
  file {_ _ _ before receipts _ _} sound moved distinct := by
    have earlier : sane (hashes before) := by
      rw [hashes_append] at distinct
      exact carries.sane_before distinct
    exact carries.file (sound earlier) moved

end Carries

end Registrar
