import ContentVault.Bytes.Crc
import ContentVault.Content.Source
import ContentVault.Vault.Config
set_option autoImplicit false

/-!
# Blobs stored by their content

Equal content is stored once: before anything is written, the blobs of the same checksum
are compared byte by byte.  Content whose checksum is that of another blob gets the next
free stamp, so equal identifiers mean equal bytes.  Ingests of one checksum through one
store exclude each other; a writer beside the store is caught by a second look after the
identifier is reserved.  The checksum and the codec are parameters, since nothing but speed and
space hang on them.
-/

namespace ContentVault

/-- A store of blobs over the backend of its world. -/
structure ContentStore where
  reserver : Reserver
  compressionLevel : Int
  checksum : Bytes → UInt32

/-- What came of an ingest. -/
structure Ingested where
  record : ContentRecord
  /-- The content was stored already and nothing was written. -/
  deduped : Bool
  deriving DecidableEq, Repr, Inhabited

/-- A blob with its content decompressed. -/
structure Retrieved where
  id : StoreId
  bytes : Bytes
  contentType : String
  fileSize : UInt64
  status : Status
  deriving DecidableEq, Repr, Inhabited

namespace ContentStore

/-- The store of a configuration, with leases measured by the given clock. -/
def ofConfig (c : StoreConfig) (clock : ClockKind) : ContentStore :=
  ⟨⟨c.reservationPolicy, clock⟩, c.compressionLevel.toInt, Crc.checksum⟩

/-- The form shown in diagnostics while the manual clock stands at `now`. -/
def describe (s : ContentStore) (now : UInt64) : String :=
  s!"ContentStore \x7b reserver: {s.reserver.describe now}, "
    ++ s!"compression_level: {s.compressionLevel} \x7d"

/-- Goes on unless the deadline has passed. -/
def unlessPassed {α : Type} (deadline : Deadline) (p : Procedure (Except VaultError α)) :
    Procedure (Except VaultError α) := do
  if ← deadline.passed then return .error (.store .timeout) else p

/-- The answer of a backend as that of a vault. -/
def ofStore {α : Type} : Except StoreError α → Except VaultError α
  | .error e => .error (.store e)
  | .ok a => .ok a

section

variable [Codec]

/-! ## Ingest -/

/-- The record holds the content: the same compressed bytes, or bytes that decompress to it.  A
record that cannot be decompressed does not. -/
def holds (data compressed : Bytes) (record : ContentRecord) : Bool :=
  record.fileSize == UInt64.ofNat data.length
    && (record.content == compressed
      || match record.decompressed with
        | .ok bytes => bytes == data
        | .error _ => false)

/-- Looks for a stored blob with the same content. -/
def findDuplicate (hash : UInt32) (data compressed : Bytes) :
    Procedure (Except VaultError (Option ContentRecord)) := do
  return match ← ask (.matchHash hash) with
    | .error e => .error (.store e)
    | .ok records => .ok (records.find? (holds data compressed))

/-- Gives a reservation up, whatever comes of it. -/
def abandon (r : Reservation StoreId) : Procedure Unit := do
  let _ ← Reserver.release r

/-- Gives a reservation up and ends with `outcome`. -/
def abandonWith {α : Type} (r : Reservation StoreId) (outcome : Except VaultError α) :
    Procedure (Except VaultError α) := do
  abandon r
  return outcome

/-- Commits content under a reservation, and gives the reservation up if that fails. -/
def commitFresh (s : ContentStore) (r : Reservation StoreId) (data compressed : Bytes)
    (contentType : String) : Procedure (Except VaultError Ingested) := do
  let record : ContentRecord := .fresh r.id compressed contentType (UInt64.ofNat data.length)
  match ← s.reserver.commit r record with
  | .error e => abandonWith r (.error (.store e))
  | .ok () => return .ok ⟨record, false⟩

/-- Looks for the content once more and commits it under a reservation. -/
def ingestReserved (s : ContentStore) (r : Reservation StoreId) (hash : UInt32)
    (data compressed : Bytes) (contentType : String) (deadline : Deadline) :
    Procedure (Except VaultError Ingested) := do
  match ← findDuplicate hash data compressed with
  | .error e => abandonWith r (.error e)
  | .ok (some existing) => abandonWith r (.ok ⟨existing, true⟩)
  | .ok none =>
    if ← deadline.passed then abandonWith r (.error (.store .timeout))
    else s.commitFresh r data compressed contentType

/-- Stores content whose checksum nobody else is ingesting. -/
def ingestExclusive (s : ContentStore) (candidate : StoreId) (data compressed : Bytes)
    (contentType : String) (deadline : Deadline) : Procedure (Except VaultError Ingested) := do
  match ← findDuplicate candidate.hash data compressed with
  | .error e => return .error e
  | .ok (some existing) => return .ok ⟨existing, true⟩
  | .ok none =>
    match ← s.reserver.reserve candidate deadline with
    | .error e => return .error (.store e)
    | .ok r => s.ingestReserved r candidate.hash data compressed contentType deadline

/-- Number of locks that keep ingests apart. -/
def stripes : Nat := 64

/-- The lock of a checksum. -/
def stripe (hash : UInt32) : Nat := hash.toNat % stripes

/-- Stores content unless it is stored already. -/
def ingest (s : ContentStore) (data : Bytes) (contentType : String) (deadline : Deadline) :
    Procedure (Except VaultError Ingested) :=
  unlessPassed deadline do
    let candidate : StoreId := ⟨s.checksum data, ← ask .seedStamp⟩
    let compressed := Codec.compress data s.compressionLevel
    unlessPassed deadline do
      ask (.enter (stripe candidate.hash))
      let outcome ← s.ingestExclusive candidate data compressed contentType deadline
      ask (.leave (stripe candidate.hash))
      return outcome

/-- Stores all that a source delivers. -/
def ingestSource (s : ContentStore) (source : List ReadResult) (contentType : String)
    (deadline : Deadline) : Procedure (Except VaultError Ingested) :=
  match ReadResult.readToEnd source with
  | .error e => .done (.error (.codec e))
  | .ok data => s.ingest data contentType deadline

/-! ## Reading and changing -/

/-- Reads a blob. -/
def record (id : StoreId) : Procedure (Except VaultError ContentRecord) := do
  return ofStore (Identifier.require id (← ask (.getStore id)))

/-- The content of a blob. -/
def retrieve (record : ContentRecord) : Except VaultError Retrieved :=
  match record.decompressed with
  | .error e => .error (.store e)
  | .ok bytes => .ok ⟨record.id, bytes, record.contentType, record.fileSize, record.status⟩

/-- Reads and decompresses a blob. -/
def get (id : StoreId) (deadline : Deadline) : Procedure (Except VaultError Retrieved) :=
  unlessPassed deadline do
    match ← record id with
    | .error e => return .error e
    | .ok record => unlessPassed deadline (.done (retrieve record))

end

/-- Changes the status of a blob. -/
def updateStatus (id : StoreId) (status : Status) (deadline : Deadline) :
    Procedure (Except VaultError Unit) :=
  unlessPassed deadline do return ofStore (← ask (.updateStatus id status))

/-- Every stored blob of a checksum. -/
def matchHash (hash : UInt32) (deadline : Deadline) :
    Procedure (Except VaultError (List ContentRecord)) :=
  unlessPassed deadline do return ofStore (← ask (.matchHash hash))

end ContentStore

end ContentVault
