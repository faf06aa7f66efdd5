import Registrar.Item

/-! How items and the enumerations in them are laid out in bytes. -/

namespace Registrar

namespace Item

def Kind.layout : Layout Kind := Layout.variant Kind.all

def Status.layout : Layout Status := Layout.variant Status.all

def Progress.layout : Layout Progress := Layout.variant Progress.all

def Sent.layout : Layout Sent :=
  ((Layout.option (Layout.fixed .txHash)).pair (Layout.option Layout.word)).imap
    (fun (hash, nonce) => ⟨hash, nonce⟩) (fun sent => (sent.hash, sent.nonce))

/-- The fields of an item in the order of their bytes. -/
abbrev Fields :=
  Int64 × Kind × String × String × String × String × UInt64 × Secret × Status ×
    Sent × Sent × Sent × UInt64 × UInt64

def toFields (item : Item) : Fields :=
  (item.index, item.kind, item.fullName, item.ownerAnyAddress, item.ownerEthAddress, item.spaceId,
    item.renewDuration, item.secret, item.status, item.commitTx, item.registerTx, item.renewTx,
    item.dateCreated, item.dateModified)

def ofFields : Fields → Item
  | (index, kind, fullName, ownerAnyAddress, ownerEthAddress, spaceId, renewDuration, secret,
      status, commitTx, registerTx, renewTx, dateCreated, dateModified) =>
    { index, kind, fullName, ownerAnyAddress, ownerEthAddress, spaceId, renewDuration, secret,
      status, commitTx, registerTx, renewTx, dateCreated, dateModified }

theorem ofFields_toFields (item : Item) : ofFields item.toFields = item := rfl

theorem toFields_ofFields (fields : Fields) : (ofFields fields).toFields = fields := rfl

def fieldsLayout : Layout Fields :=
  Layout.signedWord.pair <| Kind.layout.pair <| Layout.text.pair <| Layout.text.pair <|
  Layout.text.pair <| Layout.text.pair <| Layout.word.pair <| (Layout.fixed .secret).pair <|
  Status.layout.pair <| Sent.layout.pair <| Sent.layout.pair <| Sent.layout.pair <|
  Layout.word.pair Layout.word

def layout : Layout Item := fieldsLayout.imap ofFields toFields

end Item

end Registrar
