import ContentVault.Content.Codec
import ContentVault.Ident.Json
import ContentVault.Record.Status
import ContentVault.Store.Error
set_option autoImplicit false

/-!
# Stored blobs

A stored blob is compressed content with what is known about it.  Its size is that of
the uncompressed bytes, and decompressing checks it.
-/

namespace ContentVault

/-- A stored blob. -/
structure ContentRecord where
  id : StoreId
  content : Bytes
  contentType : String
  fileSize : UInt64
  status : Status
  deriving DecidableEq, Repr, Inhabited

namespace ContentRecord

/-- A blob that was just stored. -/
def fresh (id : StoreId) (content : Bytes) (contentType : String) (fileSize : UInt64) :
    ContentRecord :=
  ⟨id, content, contentType, fileSize, .inProgress⟩

/-- The same blob under another identifier. -/
def withId (r : ContentRecord) (id : StoreId) : ContentRecord := { r with id }

/-- Number of compressed bytes. -/
def compressedLength (r : ContentRecord) : Nat := r.content.length

/-- The uncompressed bytes. -/
def decompressed [Codec] (r : ContentRecord) : Except StoreError Bytes :=
  match Codec.decompressExact r.content r.fileSize.toNat with
  | .error e => .error (.ofCodec e)
  | .ok bytes => .ok bytes

/-! ## JSON -/

/-- The object of a blob. -/
def toJson (r : ContentRecord) : Json.Value :=
  .ofMembers [("id", r.id.toJson), ("content", .ofBytes r.content),
    ("content_type", .ofText r.contentType), ("file_size", .ofNat r.fileSize.toNat),
    ("status", r.status.toJson)]

/-- Reads a blob. -/
def ofJson? (v : Json.Value) : Option ContentRecord :=
  match v.fields? ["id", "content", "content_type", "file_size", "status"] with
  | some [some id, some content, some contentType, some fileSize, some status] => do
    let id ← StoreId.ofJson? id
    let content ← content.bytes?
    let contentType ← contentType.text?
    let fileSize ← fileSize.natBelow? UInt64.size
    let status ← Status.ofJson? (Json.maxLevels - 2) status
    some ⟨id, content, contentType, UInt64.ofNat fileSize, status⟩
  | _ => none

end ContentRecord

end ContentVault
