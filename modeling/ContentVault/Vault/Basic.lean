import ContentVault.Vault.FileIndex
set_option autoImplicit false

/-!
# Vaults

A vault is a store of blobs and a naming layer over one backend.  An upload stores the
bytes, unless they are stored already, and names them; both parts share one deadline.
-/

namespace ContentVault

/-- A store of blobs and its files. -/
structure Vault where
  config : StoreConfig
  content : ContentStore
  files : FileIndex

/-- What came of an upload. -/
structure Uploaded where
  file : FileRecord
  store : StoreId
  fileSize : UInt64
  /-- The bytes were stored already. -/
  deduped : Bool
  deriving DecidableEq, Repr, Inhabited

namespace Vault

/-- The vault of a configuration, with leases measured by the given clock. -/
def create (config : StoreConfig) (clock : ClockKind) : Except (Failure VaultError) Vault :=
  match config.validate with
  | .error failure => .error failure
  | .ok () => .ok ⟨config, .ofConfig config clock, .ofConfig config clock⟩

/-- The form shown in diagnostics. -/
def describe (v : Vault) : String := s!"Vault \x7b config: {v.config.describe}, .. \x7d"

/-- Names stored bytes: reserves an identifier and commits a file under it, or gives it up. -/
def nameBlob (v : Vault) (name owner : String) (blob : Ingested) (deadline : Deadline) :
    Procedure (Except VaultError Uploaded) := do
  match ← v.files.reserve (← FileIndex.candidate blob.record.id) deadline with
  | .error e => return .error e
  | .ok r =>
    match ← v.files.insert r name owner with
    | .error e =>
      let _ ← FileIndex.release r
      return .error e
    | .ok file => return .ok ⟨file, blob.record.id, blob.record.fileSize, blob.deduped⟩

section

variable [Codec]

/-- Stores bytes and registers a file over them. -/
def upload (v : Vault) (name owner : String) (data : Bytes) (contentType : String) :
    Procedure (Except VaultError Uploaded) := do
  let deadline ← v.config.deadline
  match ← v.content.ingest data contentType deadline with
  | .error e => return .error e
  | .ok blob => v.nameBlob name owner blob deadline

/-- A file and its content. -/
def download (v : Vault) (id : FileId) :
    Procedure (Except VaultError (FileRecord × Retrieved)) := do
  let deadline ← v.config.deadline
  match ← FileIndex.get id with
  | .error e => return .error e
  | .ok file =>
    return match ← ContentStore.get file.storeId deadline with
      | .error e => .error e
      | .ok content => .ok (file, content)

/-- A file and its content by the token of the file. -/
def downloadToken (v : Vault) (token : String) :
    Procedure (Except VaultError (FileRecord × Retrieved)) :=
  match FileId.ofToken token with
  | .error e => .done (.error (.invalidId e))
  | .ok id => v.download id

end

end Vault

end ContentVault
