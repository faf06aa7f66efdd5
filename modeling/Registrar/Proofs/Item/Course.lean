import Registrar.Proofs.Item.Protocol

/-!
The course of an item while the store does not fail. Then the moves of the protocol come in whole
steps, each of which ends with the item written back, and an item is driven from step to step until
its status is terminal. `process_driven` says so of the work on an item; `Driven.frame` says that the
other items in the store stay as they are.
-/

namespace Registrar

open Item (Phase Status)
open Ledger (Submission Profile)

/-- The transaction that an item waits for is on the ledger. -/
def Item.Waits (item : Item) (g : Ground) (tx : TxHandle) : Prop :=
  ∃ phase hash mined, item.awaited = some phase ∧ (item.sent phase).hash = some hash ∧
    g.ledger.tx? hash = some mined ∧ mined.handle = tx

/-- One step of the protocol, from an item as the store has it to the same item written back. -/
inductive Stepped (profile : Profile) (faults : Faults) (g : Ground) (item : Item) :
    List Receipt → Ground → Item → Prop where
  | failed (date : UInt64) :
      item.status.isTerminal = false →
      (faults.gateway ∨ item.Stuck profile g ∨
        ∃ tx, item.Waits g tx ∧ g.ledger.landed tx.hash = false) →
      Stepped profile faults g item [] (g.withItem (item.failed.dated date)) (item.failed.dated date)
  | rejected {s nonce error} (date : UInt64) :
      item.submission = some s → profile.offers g = .ok nonce →
      (faults.gateway ∨
        (nonce ≠ g.ledger.minedNonce profile.admin ∧ ∃ detail, error = .rejected detail)) →
      Stepped profile faults g item [.error error] (g.withItem (item.failed.dated date))
        (item.failed.dated date)
  | sent {s nonce} (date : UInt64) :
      item.submission = some s → profile.offers g = .ok nonce →
      nonce = g.ledger.minedNonce profile.admin →
      Stepped profile faults g item [.ok (g.ledger.nextTx profile.admin nonce)]
        ((g.accepting profile.admin nonce s).withItem
          ((item.record (g.ledger.nextTx profile.admin nonce) s.phase).advanced.dated date))
        ((item.record (g.ledger.nextTx profile.admin nonce) s.phase).advanced.dated date)
  | confirmed {tx} (date : UInt64) :
      item.Waits g tx → g.ledger.landed tx.hash = true →
      Stepped profile faults g item [] ((g.noting tx).withItem (item.advanced.dated date))
        (item.advanced.dated date)

/-- Steps until the status is terminal. -/
inductive Driven (profile : Profile) (faults : Faults) :
    Ground → Item → List Receipt → Ground → Item → Prop where
  | rest {g item} : item.status.isTerminal = true → Driven profile faults g item [] g item
  | step {g item receipts g' item' later g'' final} :
      Stepped profile faults g item receipts g' item' →
      Driven profile faults g' item' later g'' final →
      Driven profile faults g item (receipts ++ later) g'' final

variable {profile : Profile} {faults : Faults} {g g' : Ground} {item final : Item}
  {receipts : List Receipt}

theorem live_of_awaited {phase : Phase} (h : item.awaited = some phase) :
    item.status.isTerminal = false := by
  unfold Item.awaited at h
  cases kind : item.kind <;> cases status : item.status <;> simp_all [Status.isTerminal]

theorem live_of_submission {s : Submission} (h : item.submission = some s) :
    item.status.isTerminal = false := by
  unfold Item.submission at h
  cases kind : item.kind <;> cases status : item.status <;> simp_all [Status.isTerminal]

@[simp] theorem origin_failed (item : Item) : item.failed.origin = item.origin := rfl

@[simp] theorem origin_advanced (item : Item) : item.advanced.origin = item.origin := rfl

@[simp] theorem origin_dated (item : Item) (date : UInt64) : (item.dated date).origin = item.origin := rfl

theorem Stepped.origin {item' : Item} (h : Stepped profile faults g item receipts g' item') :
    item'.origin = item.origin := by
  cases h with
  | failed | rejected | confirmed => rfl
  | sent => exact Item.origin_record _ _ _

theorem Driven.origin (h : Driven profile faults g item receipts g' final) :
    final.origin = item.origin := by
  induction h with
  | rest => rfl
  | step stepped _ ih => exact ih.trans stepped.origin

theorem Driven.terminal (h : Driven profile faults g item receipts g' final) :
    final.status.isTerminal = true := by
  induction h with
  | rest terminal => exact terminal
  | step _ _ ih => exact ih

theorem Stepped.live {item' : Item} (h : Stepped profile faults g item receipts g' item') :
    item.status.isTerminal = false := by
  cases h with
  | failed _ live => exact live
  | rejected _ submits | sent _ submits => exact live_of_submission submits
  | confirmed _ waits =>
    obtain ⟨_, _, _, waits, _⟩ := waits
    exact live_of_awaited waits

theorem Driven.at_rest (h : Driven profile faults g item receipts g' final)
    (terminal : item.status.isTerminal = true) : receipts = [] ∧ g' = g ∧ final = item := by
  cases h with
  | rest => exact ⟨rfl, rfl, rfl⟩
  | step stepped =>
    rw [stepped.live] at terminal
    cases terminal

theorem Driven.first (h : Driven profile faults g item receipts g' final)
    (live : item.status.isTerminal = false) :
    ∃ stepped middle item' later, Stepped profile faults g item stepped middle item' ∧
      Driven profile faults middle item' later g' final ∧ receipts = stepped ++ later := by
  cases h with
  | rest terminal =>
    rw [live] at terminal
    cases terminal
  | step stepped driven => exact ⟨_, _, _, _, stepped, driven, rfl⟩

/-- What the work on one item keeps of the store: it stays tidy, and so do all other items. -/
structure Frame (g : Ground) (item : Item) (g' : Ground) (final : Item) : Prop where
  held : Items.Holds g'.store final
  tidy : Items.Tidy g.store → Items.Tidy g'.store
  others : ∀ other : Item, other.index ≠ item.index →
    (Items.Holds g'.store other ↔ Items.Holds g.store other)

theorem frame_withItem {before : Ground} {written : Item} (fits : item.Fits)
    (origin : written.origin = item.origin)
    (tidy : Items.Tidy g.store → Items.Tidy before.store)
    (others : ∀ other, Items.Holds before.store other ↔ Items.Holds g.store other) :
    Frame g item (before.withItem written) written := by
  have fits' : written.Fits := (Item.fits_iff_of_origin origin).2 fits
  have index : written.index = item.index := Item.index_eq_of_origin origin
  refine ⟨(Items.holds_withItem fits').2 (.inl rfl), fun h => Items.tidy_withItem (tidy h) fits', ?_⟩
  intro other apart
  rw [← others other]
  refine (Items.holds_withItem fits').trans ⟨?_, fun held => .inr ⟨index ▸ apart, held⟩⟩
  rintro (rfl | ⟨_, held⟩)
  · exact absurd index apart
  · exact held

theorem Stepped.frame {item' : Item} (held : Items.Holds g.store item)
    (h : Stepped profile faults g item receipts g' item') : Frame g item g' item' := by
  have origin := h.origin
  cases h with
  | failed | rejected => exact frame_withItem held.1 origin id fun _ => Iff.rfl
  | sent => exact frame_withItem held.1 origin id fun _ => Iff.rfl
  | confirmed =>
    exact frame_withItem held.1 origin Items.tidy_withNonce fun _ => Items.holds_withNonce

theorem Driven.frame (h : Driven profile faults g item receipts g' final)
    (held : Items.Holds g.store item) : Frame g item g' final := by
  induction h with
  | rest => exact ⟨held, id, fun _ _ => Iff.rfl⟩
  | step stepped _ ih =>
    have first := stepped.frame held
    have later := ih first.held
    refine ⟨later.held, fun tidy => later.tidy (first.tidy tidy), fun other apart => ?_⟩
    have apart' : other.index ≠ _ := fun same =>
      apart (same.trans (Item.index_eq_of_origin stepped.origin))
    exact (later.others other apart').trans (first.others other apart)

/-- The item that a hand holds at the end of the work was driven there. -/
def Reaches (profile : Profile) (faults : Faults) (g : Ground) (item : Item)
    (receipts : List Receipt) (g' : Ground) (hand : Hand) : Prop :=
  ∃ final, hand = .held final ∧ Driven profile faults g item receipts g' final

/-- What is to come of what is in a hand. -/
def Coming (profile : Profile) (faults : Faults) (g : Ground) (receipts : List Receipt)
    (g' : Ground) (last : Hand) : Hand → Prop
  | .free => last = .free
  | .held item => Items.Holds g.store item → Reaches profile faults g item receipts g' last
  | .offered item s nonce => Items.Holds g.store item → item.submission = some s →
      profile.offers g = .ok nonce → Reaches profile faults g item receipts g' last
  | .found item tx => Items.Holds g.store item → item.status.isTerminal = false → item.Waits g tx →
      Reaches profile faults g item receipts g' last
  | .mined item tx => Items.Holds g.store item → item.Waits g tx →
      g.ledger.landed tx.hash = true → Reaches profile faults g item receipts g' last
  | .writing item => item.Fits → g.store.contains (Items.key item.index) = true →
      ∃ date, Reaches profile faults (g.withItem (item.dated date)) (item.dated date) receipts g' last

theorem Reaches.after {stepped : List Receipt} {middle : Ground} {item' : Item} {last : Hand}
    (first : Stepped profile faults g item stepped middle item')
    (later : Reaches profile faults middle item' receipts g' last) :
    Reaches profile faults g item (stepped ++ receipts) g' last := by
  obtain ⟨final, same, driven⟩ := later
  exact ⟨final, same, .step first driven⟩

/-- An item that is held can be written back, whatever its step made of it. -/
theorem ready_of_holds {store : Store} {written : Item} (held : Items.Holds store item)
    (origin : written.origin = item.origin) :
    written.Fits ∧ store.contains (Items.key written.index) = true := by
  refine ⟨(Item.fits_iff_of_origin origin).2 held.1, ?_⟩
  unfold Store.contains
  rw [Item.index_eq_of_origin origin, held.2]
  rfl

/-- Moves that end with nothing in the hand or with an item at rest are steps of the protocol. -/
theorem coming_of_chain (steady : ¬ faults.store) {hand last : Hand}
    (chain : Chain (Move profile faults) g hand receipts g' last)
    (ends : last = .free ∨ ∃ final, last = .held final ∧ final.status.isTerminal = true) :
    Coming profile faults g receipts g' last hand := by
  induction chain with
  | stay =>
    rcases ends with rfl | ⟨final, rfl, terminal⟩
    · rfl
    · exact fun _ => ⟨final, rfl, .rest terminal⟩
  | @step g _ _ _ _ _ _ _ moved _ ih =>
    have coming := ih ends
    cases moved with
    | offer submits offered => exact fun held => coming held submits offered
    | @accept _ item s nonce same =>
      intro held submits offered
      have origin := Item.origin_record item (g.ledger.nextTx profile.admin nonce) s.phase
      have ready := ready_of_holds held origin
      obtain ⟨date, reaches⟩ := coming ready.1 ready.2
      exact reaches.after (.sent date submits offered same)
    | reject why =>
      intro held submits offered
      have ready := ready_of_holds held (origin_failed _)
      obtain ⟨date, reaches⟩ := coming ready.1 ready.2
      exact reaches.after (.rejected date submits offered why)
    | find waits recorded there =>
      intro held
      exact coming held (live_of_awaited waits) ⟨_, _, _, waits, recorded, there, rfl⟩
    | mined landed => exact fun held _ waits => coming held waits landed
    | lose why =>
      intro held live waits
      have ready := ready_of_holds held (origin_failed _)
      obtain ⟨date, reaches⟩ := coming ready.1 ready.2
      refine reaches.after (.failed date live ?_)
      exact why.imp_right fun lost => .inr ⟨_, waits, lost⟩
    | @note _ item tx =>
      intro held waits landed
      have kept : Items.Holds (Ground.noting _ tx).store item := Items.holds_withNonce.2 held
      have ready := ready_of_holds kept (origin_advanced item)
      obtain ⟨date, reaches⟩ := coming ready.1 ready.2
      exact reaches.after (.confirmed date waits landed)
    | giveUp live why =>
      intro held
      have ready := ready_of_holds held (origin_failed _)
      obtain ⟨date, reaches⟩ := coming ready.1 ready.2
      refine reaches.after (.failed date live ?_)
      rcases why with gateway | store | stuck
      · exact .inl gateway
      · exact absurd store steady
      · exact .inr (.inl stuck)
    | @write _ item date =>
      intro fits _
      have fits' : (item.dated date).Fits := fits
      exact ⟨date, coming ((Items.holds_withItem fits').2 (.inl rfl))⟩
    | drop why =>
      rcases why with store | ⟨item, rfl, absent⟩
      · exact absurd store steady
      · intro _ present
        rw [absent] at present
        cases present

/-- The work on an item that the store holds ends with the item at rest. -/
theorem process_driven {backend : Backend} (within : backend.Within faults) (steady : ¬ faults.store)
    (whole : ¬ faults.breaks) (held : Items.Holds backend.ground.store item) :
    let performed := backend.perform (Processor.process false item).run
    performed.backend.Within faults ∧ performed.backend.profile = backend.profile ∧
      ∃ final, performed.value = some (.ok final.status) ∧
        Driven backend.profile faults backend.ground item performed.receipts
          performed.backend.ground final := by
  obtain ⟨kept, same, broke, last, chain, ends⟩ :=
    Backend.perform_follows within (Processor.follows_process item)
  refine ⟨kept, same, ?_⟩
  cases value : (backend.perform (Processor.process false item).run).value with
  | none => exact absurd (broke value) whole
  | some answer =>
    have answered := ends answer value
    have stops : last = .free ∨ ∃ final, last = .held final ∧ final.status.isTerminal = true := by
      cases answer with
      | error error => exact .inl answered
      | ok status =>
        obtain ⟨final, rfl, rfl, terminal⟩ := answered
        exact .inr ⟨final, rfl, terminal⟩
    obtain ⟨final, rfl, driven⟩ := coming_of_chain steady chain stops held
    cases answer with
    | error error => cases answered
    | ok status =>
      obtain ⟨_, same, rfl, _⟩ := answered
      cases same
      exact ⟨final, rfl, driven⟩

/-- A look-up of an item, request by request. -/
theorem Items.run_get (index : Int64) :
    (Items.get index).run = .ask (.get (key index)) fun
      | .error error => .done (.error (.store error))
      | .ok none => .done (.ok none)
      | .ok (some record) => .done <|
        match decode (key index) record with
        | .ok item => .ok (some item)
        | .error error => .error (.store error) := by
  refine congrArg (Program.ask _) (funext fun answer => ?_)
  rcases answer with error | _ | record
  · rfl
  · rfl
  · have lifted : Except.mapError QueueError.store (.ok (some record)) = .ok (some record) := rfl
    simp only [Program.bind, ExceptT.bindCont, lifted]
    cases decode (key index) record <;> rfl

/-- The same look-up as a part of the work on items. -/
theorem Items.run_onStore_get (index : Int64) :
    (Work.onStore (Items.get index)).run = .ask (.store (.get (key index))) fun
      | .error error => .done (.error (.store error))
      | .ok none => .done (.ok none)
      | .ok (some record) => .done <|
        match decode (key index) record with
        | .ok item => .ok (some item)
        | .error error => .error (.store error) := by
  have via : (Work.onStore (Items.get index)).run =
      Program.via (J := Work) (fun request => .ask (.store request) .done) (Items.get index).run := rfl
  rw [via, run_get]
  refine congrArg (Program.ask _) (funext fun answer => ?_)
  rcases answer with error | _ | record <;> rfl

namespace Processor

/-- The work on an index, request by request. -/
theorem run_processIndex (skip : Bool) (index : Int64) :
    (processIndex skip index).run = .ask (.store (.get (Items.key index))) fun
      | .error error => .done (.error (.store error))
      | .ok none => .done (.error (.itemNotFound index))
      | .ok (some record) =>
        (Attempt.of ((Items.decode (Items.key index) record).mapError .store) >>= process skip).run := by
  have unfolded : (processIndex skip index).run =
      (Work.onStore (Items.get index)).run.bind (ExceptT.bindCont _) := rfl
  rw [unfolded, Items.run_onStore_get]
  refine congrArg (Program.ask _) (funext fun answer => ?_)
  rcases answer with error | _ | record
  · rfl
  · rfl
  · dsimp only
    cases Items.decode (Items.key index) record <;> rfl

end Processor

namespace Backend

variable {backend : Backend}

/-- A store that does not fail answers by itself. -/
theorem serve_store (within : backend.Within faults) (steady : ¬ faults.store)
    (request : Store.Request) :
    ∃ after, backend.serve (.store request) =
        (some ⟨.ok (backend.ground.store.serve request).1, 0⟩, after) ∧
      after.Within faults ∧ after.profile = backend.profile ∧
      after.ground = { backend.ground with store := (backend.ground.store.serve request).2 } := by
  obtain ⟨kept, same, given, _⟩ := serve_replies within (.store request)
  refine ⟨(backend.serve (.store request)).2, ?_, kept, same, ?_⟩
  · rcases given _ rfl with ⟨own, _⟩ | ⟨faulty, _⟩
    · refine Prod.ext ?_ rfl
      exact congrArg (fun answer => some (Gateway.Reply.mk answer 0)) own
    · exact absurd faulty steady
  · rcases given _ rfl with ⟨_, ground⟩ | ⟨faulty, _⟩
    · exact ground
    · exact absurd faulty steady

/-- The work on the index of an item is the work on the item. -/
theorem processIndex_driven (within : backend.Within faults) (steady : ¬ faults.store)
    (whole : ¬ faults.breaks) (held : Items.Holds backend.ground.store item) :
    let performed := backend.perform (Processor.processIndex false item.index).run
    performed.backend.Within faults ∧ performed.backend.profile = backend.profile ∧
      ∃ final, performed.value = some (.ok final.status) ∧
        Driven backend.profile faults backend.ground item performed.receipts
          performed.backend.ground final := by
  obtain ⟨after, served, kept, same, ground⟩ :=
    serve_store within steady (.get (Items.key item.index))
  have found : (backend.ground.store.serve (.get (Items.key item.index))).1 =
      some (Items.encode item) := held.2
  have unchanged : after.ground = backend.ground := ground
  have held' : Items.Holds after.ground.store item := unchanged ▸ held
  obtain ⟨kept', same', final, value, driven⟩ := process_driven kept steady whole held'
  have decoded : Items.decode (Items.key item.index) (Items.encode item) = .ok item := by
    unfold Items.decode
    rw [Items.decode_encode held.1]
  rw [found] at served
  rw [Processor.run_processIndex]
  intro performed
  have performing : performed = (after.perform (Processor.process false item).run).prepend
      [⟨.store (.get (Items.key item.index)), .ok (some (Items.encode item))⟩] := by
    refine (perform_answered served).trans ?_
    dsimp only
    rw [decoded]
    rfl
  rw [performing]
  refine ⟨kept', same'.trans same, final, value, ?_⟩
  rw [same, unchanged] at driven
  exact driven

/-- The work on an index without an item changes nothing. -/
theorem processIndex_missing (within : backend.Within faults) (steady : ¬ faults.store)
    {index : Int64} (absent : backend.ground.store.get? (Items.key index) = none) :
    let performed := backend.perform (Processor.processIndex false index).run
    performed.backend.Within faults ∧ performed.backend.profile = backend.profile ∧
      performed.value = some (.error (.itemNotFound index)) ∧ performed.receipts = [] ∧
      performed.backend.ground = backend.ground := by
  obtain ⟨after, served, kept, same, ground⟩ := serve_store within steady (.get (Items.key index))
  have found : (backend.ground.store.serve (.get (Items.key index))).1 = none := absent
  rw [found] at served
  rw [Processor.run_processIndex]
  intro performed
  have performing : performed = (after.perform (.done (.error (.itemNotFound index)))).prepend
      [⟨.store (.get (Items.key index)), .ok none⟩] := perform_answered served
  rw [performing]
  exact ⟨kept, same, rfl, rfl, ground⟩

end Backend

end Registrar
