import Registrar.Processor

/-!
The resume scan. It visits the statuses that are not terminal one after the other, and in each takes
up the first item that it has not tried there yet, until there is none. An item that cannot be
written back is therefore tried once and not for ever; only a search that fails ends the scan early.
-/

namespace Registrar

/-- How far a resume scan has come: the statuses left, the first of them being searched, and the
indices tried in it. -/
structure Resume where
  buckets : List Item.Status
  tried : List Int64
  deriving DecidableEq

namespace Resume

def start : Resume := ⟨Item.Status.resumeBuckets, []⟩

/-- The first of some items that was not tried yet. -/
def pick (tried : List Int64) (items : List Item) : Option Item :=
  items.find? fun item => !tried.contains item.index

/-- One search, and the work on the item it finds. -/
def round (skip : Bool) : Resume → Program Work (Next Resume (Except QueueError Unit))
  | ⟨[], _⟩ => .done (.finished (.ok ()))
  | ⟨bucket :: later, tried⟩ => do
    match ← (Work.onStore (Items.withStatus bucket)).run with
    | .error error => return .finished (.error error)
    | .ok items =>
      match pick tried items with
      | none => return .again ⟨later, []⟩
      | some item =>
        let _ ← (Processor.process skip item).run
        return .again ⟨bucket :: later, item.index :: tried⟩

end Resume

end Registrar
