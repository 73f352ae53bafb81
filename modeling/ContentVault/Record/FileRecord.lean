import ContentVault.Ident.Json
import ContentVault.Time.Timestamp
set_option autoImplicit false

/-!
# Files

A file is a name and an owner over a stored blob, with the time of its upload.
-/

namespace ContentVault

/-- A file over a stored blob. -/
structure FileRecord where
  id : FileId
  name : String
  owner : String
  uploadedAt : Timestamp
  deriving DecidableEq, Repr, Inhabited

namespace FileRecord

/-- The same file under another identifier. -/
def withId (r : FileRecord) (id : FileId) : FileRecord := { r with id }

/-- The blob that holds the file's bytes. -/
def storeId (r : FileRecord) : StoreId := r.id.store

/-! ## JSON -/

/-- The object of a file. -/
def toJson (r : FileRecord) : Json.Value :=
  .ofMembers [("id", r.id.toJson), ("name", .ofText r.name), ("owner", .ofText r.owner),
    ("uploaded_at", .ofText r.uploadedAt.text)]

/-- Reads a file. -/
def ofJson? (v : Json.Value) : Option FileRecord :=
  match v.fields? ["id", "name", "owner", "uploaded_at"] with
  | some [some id, some name, some owner, some uploadedAt] => do
    let id ← FileId.ofJson? id
    let name ← name.text?
    let owner ← owner.text?
    let uploadedAt ← uploadedAt.text?
    let uploadedAt ← Timestamp.ofText? uploadedAt
    some ⟨id, name, owner, uploadedAt⟩
  | _ => none

end FileRecord

end ContentVault
