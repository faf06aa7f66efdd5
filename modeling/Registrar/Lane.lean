import Registrar.Queue.Error

/-!
The lane on which the indices of new items are announced to the worker. It keeps them in order, holds
no more than its capacity, and refuses all once it is closed. It is not stored: what is lost with it
is found again by the next resume scan.
-/

namespace Registrar

structure Lane where
  capacity : Nat
  waiting : List Int64
  closed : Bool
  deriving DecidableEq, Repr

namespace Lane

/-- An empty lane with room for at least one index. -/
def make (capacity : Nat) : Lane := ⟨max 1 capacity, [], false⟩

/-- How many indices there is room for. -/
def available (lane : Lane) : Nat := lane.capacity - lane.waiting.length

def hasRoom (lane : Lane) : Bool := lane.waiting.length < lane.capacity

def push (lane : Lane) (index : Int64) : Lane := { lane with waiting := lane.waiting ++ [index] }

/-- The index at the head, and the lane without it. -/
def pop (lane : Lane) : Option (Int64 × Lane) :=
  match lane.waiting with
  | [] => none
  | index :: rest => some (index, { lane with waiting := rest })

/-- The lane closed to announcements; what waits in it can still be taken. -/
def close (lane : Lane) : Lane := { lane with closed := true }

/-- The lane without a receiver: closed, and what waited in it is lost. -/
def drop (lane : Lane) : Lane := { lane with closed := true, waiting := [] }

end Lane

end Registrar
