import Registrar.Proofs.Hall.Turns

/-!
The account of the lane. What was announced with success is what the worker has taken, what was lost when
it stopped and what still waits, in this order; each index is announced once at most, by the visitor who
has stored its item.
-/

namespace Registrar

open Hall (linesOf filed Records)

/-- The lane after an exchange. -/
def Service.Exchange.passes (lane : Lane) : Service.Exchange → Lane
  | ⟨.announce index, .ok ()⟩ => lane.push index
  | ⟨.receive, some _⟩ => { lane with waiting := lane.waiting.tail }
  | _ => lane

theorem Lane.waiting_of_pop {lane rest : Lane} {index : Int64} (pops : lane.pop = some (index, rest)) :
    lane.waiting = index :: lane.waiting.tail ∧ rest = { lane with waiting := lane.waiting.tail } := by
  unfold pop at pops
  split at pops
  · cases pops
  · rename_i first others waiting
    cases pops
    rw [waiting]
    exact ⟨rfl, rfl⟩

namespace World.Answers

variable {chance : Chance} {since : Nat} {world after : World} {exchange : Service.Exchange}

theorem lane (answers : Answers chance since world exchange after) :
    after.lane = exchange.passes world.lane := by
  cases answers with
  | take pops => exact (Lane.waiting_of_pop pops).2
  | _ => rfl

theorem options (answers : Answers chance since world exchange after) :
    after.options = world.options := by
  cases answers <;> rfl

theorem room {index : Int64} (answers : Answers chance since world ⟨.announce index, .ok ()⟩ after) :
    world.lane.closed = false ∧ world.lane.waiting.length < world.lane.capacity := by
  cases answers with
  | push isOpen room => exact ⟨isOpen, of_decide_eq_true room⟩

theorem taken {index : Int64} (answers : Answers chance since world ⟨.receive, some index⟩ after) :
    world.lane.waiting = index :: world.lane.waiting.tail := by
  cases answers with
  | take pops => exact (Lane.waiting_of_pop pops).1

end World.Answers

namespace Hall

/-- The index that was announced with success. -/
def Line.posted? (line : Line) : Option Int64 :=
  match line.told? with
  | some (index, .ok ()) => some index
  | _ => none

/-- The indices that were announced with success, in that order. -/
def posted (log : List Line) : List Int64 := log.filterMap (·.posted?)

theorem posted_append {log : List Line} {line : Line} :
    posted (log ++ [line]) = posted log ++ line.posted?.toList := by
  unfold posted
  rw [List.filterMap_append]
  cases h : line.posted? <;> simp [h]

theorem Line.posted?_eq_some {line : Line} {index : Int64} :
    line.posted? = some index ↔ line.told? = some (index, .ok ()) := by
  unfold posted?
  constructor
  · intro h
    split at h
    · cases h
      assumption
    · cases h
  · intro h
    rw [h]

variable {hall later : Hall} {holder : Option Nat} {log : List Line} {store : Store} {n m : Nat}
  {item other : Item} {told told' : Option (Int64 × Except QueueError Unit)}

theorem Records.filed (records : Records log n (some item) told) : item ∈ filed log := by
  obtain ⟨line, there, files⟩ := records.filer
  exact List.mem_filterMap.2 ⟨line, (List.mem_filter.1 there).1, files⟩

theorem Records.posted {index : Int64} {item : Option Item}
    (records : Records log n item (some (index, .ok ()))) : index ∈ posted log := by
  have told : (index, Except.ok ()) ∈ (linesOf log n).filterMap (·.told?) := by
    rw [records.told]
    exact List.mem_singleton_self _
  obtain ⟨line, there, tells⟩ := List.mem_filterMap.1 told
  exact List.mem_filterMap.2 ⟨line, (List.mem_filter.1 there).1, Line.posted?_eq_some.2 tells⟩

/-- Only one visitor stores an item under an index. -/
theorem Records.unique (sound : Sound store log) (records : Records log n (some item) told)
    (records' : Records log m (some other) told') (same : item.index = other.index) :
    n = m ∧ told = told' := by
  obtain ⟨line, there, files⟩ := records.filer
  obtain ⟨line', there', files'⟩ := records'.filer
  obtain ⟨inLog, called⟩ := List.mem_filter.1 there
  obtain ⟨inLog', called'⟩ := List.mem_filter.1 there'
  cases sound.unique inLog inLog' files files' same
  cases (of_decide_eq_true called).symm.trans (of_decide_eq_true called')
  have same := records.told.symm.trans records'.told
  rcases told with _ | told <;> rcases told' with _ | told' <;> cases same <;> exact ⟨rfl, rfl⟩

/-- What was announced with success is the index of an item that the visitor has stored. -/
theorem Orderly.poster (orderly : hall.Orderly holder) {index : Int64}
    (there : index ∈ posted hall.log) :
    ∃ n item, Records hall.log n (some item) (some (item.index, .ok ())) ∧ item.index = index := by
  obtain ⟨line, there, posts⟩ := List.mem_filterMap.1 there
  have tells := Line.posted?_eq_some.1 posts
  obtain ⟨n, visit, request, stage, own, found, _, known, records⟩ :=
    orderly.author there (.inr (by rw [tells]; rfl))
  have told : (index, Except.ok ()) ∈ (linesOf hall.log n).filterMap (·.told?) :=
    List.mem_filterMap.2 ⟨line, own, tells⟩
  rw [records.told, Option.mem_toList] at told
  cases stage with
  | announced item answer =>
    cases told
    exact ⟨n, item, records, rfl⟩
  | _ => cases told

/-- The account of a lane with a capacity. -/
structure Accounted (hall : Hall) (capacity : Nat) : Prop where
  posted : posted hall.log = hall.received ++ hall.left ++ hall.world.lane.waiting
  distinct : (Hall.posted hall.log).Nodup
  bound : hall.world.lane.waiting.length ≤ hall.world.lane.capacity
  capacity : hall.world.lane.capacity = capacity
  early : hall.world.worker = .absent → hall.received = [] ∧ hall.hand = none
  kept : hall.world.worker ≠ .stopped → hall.left = []
  late : hall.world.worker = .stopped → hall.world.lane.waiting = [] ∧ hall.world.lane.closed = true
  hand : ∀ index, hall.hand = some index → index ∈ hall.received

/-- An exchange that puts nothing on the lane and takes nothing from it leaves it alone. -/
theorem exchange_cases (exchange : Service.Exchange) :
    (∃ index, exchange = ⟨.announce index, .ok ()⟩) ∨ (∃ index, exchange = ⟨.receive, some index⟩) ∨
      (∀ lane, exchange.passes lane = lane) ∧ taken? exchange = none ∧
        ∀ caller world, Line.posted? ⟨caller, world, exchange⟩ = none := by
  obtain ⟨request, answer⟩ := exchange
  cases request with
  | announce index =>
    rcases answer with error | ⟨⟩
    · exact .inr (.inr ⟨fun _ => rfl, rfl, fun _ _ => rfl⟩)
    · exact .inl ⟨index, rfl⟩
  | receive =>
    rcases answer with _ | index
    · exact .inr (.inr ⟨fun _ => rfl, rfl, fun _ _ => rfl⟩)
    · exact .inr (.inl ⟨index, rfl⟩)
  | _ => exact .inr (.inr ⟨fun _ => rfl, rfl, fun _ _ => rfl⟩)

section

variable {capacity : Nat} {caller : Caller} {index : Int64}

/-- An index is announced with success. -/
theorem Accounted.announced (accounted : hall.Accounted capacity)
    (log : later.log = hall.log ++ [⟨caller, hall.world, ⟨.announce index, .ok ()⟩⟩])
    (lane : later.world.lane = hall.world.lane.push index)
    (received : later.received = hall.received) (left : later.left = hall.left)
    (hand : later.hand = hall.hand)
    (isOpen : hall.world.lane.closed = false)
    (room : hall.world.lane.waiting.length < hall.world.lane.capacity)
    (fresh : index ∉ Hall.posted hall.log)
    (absent : later.world.worker = .absent → hall.world.worker = .absent)
    (stopped : later.world.worker = .stopped ↔ hall.world.worker = .stopped) :
    later.Accounted capacity := by
  have running : hall.world.worker ≠ .stopped := fun stopped => by
    rw [(accounted.late stopped).2] at isOpen
    cases isOpen
  have nothing := accounted.kept running
  have waiting : later.world.lane.waiting = hall.world.lane.waiting ++ [index] := by
    rw [lane]
    rfl
  have posted : Hall.posted later.log = Hall.posted hall.log ++ [index] := by
    rw [log, posted_append]
    rfl
  constructor
  case posted =>
    rw [posted, waiting, received, left, accounted.posted, nothing]
    simp
  case distinct =>
    rw [posted, List.nodup_append]
    refine ⟨accounted.distinct, List.nodup_singleton _, fun i there j last same => ?_⟩
    cases List.mem_singleton.1 last
    exact fresh (same ▸ there)
  case bound =>
    rw [waiting, lane, List.length_append]
    exact room
  case capacity =>
    rw [lane]
    exact accounted.capacity
  case early =>
    rw [received, hand]
    exact fun none => accounted.early (absent none)
  case kept => exact fun _ => left.trans nothing
  case late => exact fun ended => absurd (stopped.1 ended) running
  case hand =>
    rw [received, hand]
    exact accounted.hand

/-- The worker takes the index that comes next. -/
theorem Accounted.taken (accounted : hall.Accounted capacity)
    (log : later.log = hall.log ++ [⟨caller, hall.world, ⟨.receive, some index⟩⟩])
    (lane : later.world.lane = { hall.world.lane with waiting := hall.world.lane.waiting.tail })
    (received : later.received = hall.received ++ [index]) (left : later.left = hall.left)
    (hand : later.hand = some index)
    (waits : hall.world.lane.waiting = index :: hall.world.lane.waiting.tail)
    (present : later.world.worker ≠ .absent)
    (stopped : later.world.worker = .stopped ↔ hall.world.worker = .stopped) :
    later.Accounted capacity := by
  have waiting : later.world.lane.waiting = hall.world.lane.waiting.tail := by
    rw [lane]
  have running : hall.world.worker ≠ .stopped := fun stopped => by
    rw [(accounted.late stopped).1] at waits
    cases waits
  have posted : Hall.posted later.log = Hall.posted hall.log := by
    rw [log, posted_append]
    exact List.append_nil _
  constructor
  case posted =>
    rw [posted, waiting, received, left, accounted.posted, accounted.kept running]
    simp only [List.append_nil, List.append_assoc, List.singleton_append]
    rw [← waits]
  case distinct =>
    rw [posted]
    exact accounted.distinct
  case bound =>
    have bound := accounted.bound
    rw [waits] at bound
    rw [waiting, lane]
    exact Nat.le_of_succ_le bound
  case capacity =>
    rw [lane]
    exact accounted.capacity
  case early => exact fun absent => absurd absent present
  case kept => exact fun _ => left.trans (accounted.kept running)
  case late => exact fun ended => absurd (stopped.1 ended) running
  case hand =>
    intro other holds
    cases hand.symm.trans holds
    rw [received]
    exact List.mem_append_right _ List.mem_cons_self

/-- Nothing is put on the lane, and nothing taken from it. -/
theorem Accounted.passed {line : Line} (accounted : hall.Accounted capacity)
    (log : later.log = hall.log ++ [line]) (unposted : line.posted? = none)
    (lane : later.world.lane = hall.world.lane) (received : later.received = hall.received)
    (left : later.left = hall.left) (hand : later.hand = hall.hand)
    (absent : later.world.worker = .absent → hall.world.worker = .absent)
    (stopped : later.world.worker = .stopped ↔ hall.world.worker = .stopped) :
    later.Accounted capacity := by
  have posted : Hall.posted later.log = Hall.posted hall.log := by
    rw [log, posted_append, unposted]
    exact List.append_nil _
  constructor
  case posted => rw [posted, lane, received, left, accounted.posted]
  case distinct => exact posted ▸ accounted.distinct
  case bound => exact lane ▸ accounted.bound
  case capacity => exact lane ▸ accounted.capacity
  case early =>
    rw [received, hand]
    exact fun none => accounted.early (absent none)
  case kept =>
    rw [left]
    exact fun running => accounted.kept fun ended => running (stopped.2 ended)
  case late =>
    rw [lane]
    exact fun ended => accounted.late (stopped.1 ended)
  case hand =>
    rw [received, hand]
    exact accounted.hand

/-- Whatever is asked for, the account of the lane stays right. -/
theorem Accounted.asked (accounted : hall.Accounted capacity) (caller : Caller)
    (exchange : Service.Exchange)
    (log : later.log = hall.log ++ [⟨caller, hall.world, exchange⟩])
    (lane : later.world.lane = exchange.passes hall.world.lane)
    (received : later.received = hall.received ++ (taken? exchange).toList)
    (left : later.left = hall.left) (hand : later.hand = (taken? exchange).or hall.hand)
    (push : ∀ index, exchange = ⟨.announce index, .ok ()⟩ → hall.world.lane.closed = false ∧
      hall.world.lane.waiting.length < hall.world.lane.capacity ∧ index ∉ Hall.posted hall.log)
    (take : ∀ index, taken? exchange = some index → hall.world.worker ≠ .absent ∧
      hall.world.lane.waiting = index :: hall.world.lane.waiting.tail)
    (worker : (later.world.worker = .absent → hall.world.worker = .absent) ∧
      (later.world.worker = .stopped ↔ hall.world.worker = .stopped)) :
    later.Accounted capacity := by
  obtain ⟨absent, stopped⟩ := worker
  rcases exchange_cases exchange with ⟨index, rfl⟩ | ⟨index, rfl⟩ | ⟨passes, untaken, unposted⟩
  · obtain ⟨isOpen, room, fresh⟩ := push index rfl
    have received := received.trans (List.append_nil _)
    exact accounted.announced log lane received left hand isOpen room fresh absent stopped
  · obtain ⟨present, waits⟩ := take index rfl
    exact accounted.taken log lane received left hand waits (fun none => present (absent none)) stopped
  · rw [untaken] at received hand
    have received := received.trans (List.append_nil _)
    exact accounted.passed log (unposted caller hall.world) (lane.trans (passes _)) received left hand
      absent stopped

end

/-- Where nothing is taken from the lane, what was taken stays as it is. -/
theorem Accounted.untaken {capacity : Nat} (accounted : hall.Accounted capacity) (caller : Caller)
    {exchange : Service.Exchange} (untaken : taken? exchange = none)
    (log : later.log = hall.log ++ [⟨caller, hall.world, exchange⟩])
    (lane : later.world.lane = exchange.passes hall.world.lane) (received : later.received = hall.received)
    (left : later.left = hall.left) (hand : later.hand = hall.hand)
    (push : ∀ index, exchange = ⟨.announce index, .ok ()⟩ → hall.world.lane.closed = false ∧
      hall.world.lane.waiting.length < hall.world.lane.capacity ∧ index ∉ Hall.posted hall.log)
    (worker : (later.world.worker = .absent → hall.world.worker = .absent) ∧
      (later.world.worker = .stopped ↔ hall.world.worker = .stopped)) :
    later.Accounted capacity := by
  refine accounted.asked caller exchange log lane ?_ left ?_ push (fun index taken => ?_) worker
  · rw [untaken, received]
    exact (List.append_nil _).symm
  · rw [untaken, hand]
    rfl
  · cases untaken.symm.trans taken

theorem taken?_eq_some {exchange : Service.Exchange} {index : Int64}
    (taken : taken? exchange = some index) : exchange = ⟨.receive, some index⟩ := by
  obtain ⟨request, answer⟩ := exchange
  cases request with
  | receive =>
    cases taken
    rfl
  | _ => cases taken

/-- What the worker has taken was announced, and waits no more. -/
theorem Accounted.received {capacity : Nat} (accounted : hall.Accounted capacity) {index : Int64}
    (there : index ∈ hall.received) :
    index ∈ Hall.posted hall.log ∧ index ∉ hall.left ∧ index ∉ hall.world.lane.waiting := by
  have distinct := accounted.distinct
  rw [accounted.posted, List.append_assoc, List.nodup_append] at distinct
  have apart := fun other inRest => distinct.2.2 index there other inRest
  refine ⟨?_, fun lost => ?_, fun waits => ?_⟩
  · rw [accounted.posted, List.append_assoc]
    exact List.mem_append_left _ there
  · exact apart index (List.mem_append_left _ lost) rfl
  · exact apart index (List.mem_append_right _ waits) rfl

/-- What waits does so once, and is not lost. -/
theorem Accounted.waits {capacity : Nat} (accounted : hall.Accounted capacity) {index : Int64}
    (there : index ∈ hall.world.lane.waiting) :
    hall.world.lane.waiting.count index = 1 ∧ index ∉ hall.left := by
  have distinct := accounted.distinct
  rw [accounted.posted, List.append_assoc, List.nodup_append] at distinct
  obtain ⟨_, once, apart⟩ := List.nodup_append.1 distinct.2.1
  exact ⟨List.count_eq_one_of_mem once there, fun lost => apart index lost index there rfl⟩

/-- The worker ends, and what waits is lost. -/
theorem Accounted.ends {capacity : Nat} (accounted : hall.Accounted capacity) :
    Accounted { hall with
      world := hall.world.endWorker, hand := none
      left := hall.left ++ hall.world.lane.waiting } capacity where
  posted := by
    rw [show Hall.posted _ = Hall.posted hall.log from rfl, accounted.posted]
    simp [World.endWorker, Lane.drop]
  distinct := accounted.distinct
  bound := Nat.zero_le _
  capacity := accounted.capacity
  early absent := by cases absent
  kept running := absurd rfl running
  late _ := ⟨rfl, rfl⟩
  hand _ absent := by cases absent

/-- The worker begins with the next round. -/
theorem Accounted.rests {capacity : Nat} (accounted : hall.Accounted capacity)
    {task task' : Task Unit Unit} (live : hall.world.worker = .live task) :
    Accounted { hall with world := { hall.world with worker := .live task' }, hand := none }
      capacity where
  posted := accounted.posted
  distinct := accounted.distinct
  bound := accounted.bound
  capacity := accounted.capacity
  early absent := by cases absent
  kept _ := accounted.kept (by rw [live]; nofun)
  late stopped := by cases stopped
  hand _ absent := by cases absent

end Hall

end Registrar
