import Registrar.Item.Layout
import Registrar.Queue.Error

/-!
The items in the store. Each lies under a key made of its index, whose eight bytes are written most
significant first, so that a scan meets the items in the order of their indices read as unsigned
numbers. A record that cannot be decoded is an error to whoever asks for it by its index, and is
passed over by a search.
-/

namespace Registrar.Items

/-- How the keys of all items begin. -/
def keyStart : Bytes := Text.Utf8.encode ['q', 'u', 'e', 'u', 'e', ':']

def key (index : Int64) : Bytes := keyStart ++ Bytes.bigEndian 8 index.toUInt64.toNat

/-- A key of an item as an error shows it: the digits of what follows the common beginning. -/
def keyText (key : Bytes) : String :=
  let suffix := if keyStart.isPrefixOf key then key.drop keyStart.length else key
  String.ofList (['q', 'u', 'e', 'u', 'e', ':', '0', 'x'] ++ Hex.encode suffix)

/-- The item that a record holds. -/
def decode (key record : Bytes) : Except StoreError Item :=
  match Item.layout.decode record with
  | .ok item => .ok item
  | .error fault => .error (.corrupted (keyText key) fault.message)

def encode (item : Item) : Bytes := Item.layout.write item

/-- Make one request of the store. -/
def ask (request : Store.Request) : Attempt Store.Access QueueError request.Value :=
  Store.ask .store request

/-- How many keys of items there are. -/
def count : Attempt Store.Access QueueError Nat := ask (.count keyStart)

/-- Write an item under its index, whether or not one is there. -/
def write (item : Item) : Attempt Store.Access QueueError Unit :=
  ask (.put (key item.index) (encode item))

/-- Store an item under an index that is still free. -/
def insert (item : Item) : Attempt Store.Access QueueError Unit := do
  if ← ask (.exists (key item.index)) then throw (.duplicateIndex item.index)
  else write item

/-- Store an item in the place of the one with its index. -/
def replace (item : Item) : Attempt Store.Access QueueError Unit := do
  if ← ask (.exists (key item.index)) then write item
  else throw (.itemNotFound item.index)

/-- The item with an index, if there is one. -/
def get (index : Int64) : Attempt Store.Access QueueError (Option Item) := do
  match ← ask (.get (key index)) with
  | none => return none
  | some record =>
    match decode (key index) record with
    | .ok item => return some item
    | .error error => throw (.store error)

/-- The items with a status among some entries, in their order. -/
def select (status : Item.Status) (entries : List Store.Entry) : List Item :=
  entries.filterMap fun (_, record) =>
    match Item.layout.decode record with
    | .ok item => if item.status = status then some item else none
    | .error _ => none

/-- All items with a status, in the order of their keys. -/
def withStatus (status : Item.Status) : Attempt Store.Access QueueError (List Item) := do
  return select status (← ask (.scan keyStart))

/-- Make everything written so far durable. -/
def flush : Attempt Store.Access QueueError Unit := ask .flush

end Registrar.Items
