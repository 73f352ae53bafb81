import ContentVault.Store.Chunked.Lane
set_option autoImplicit false

/-!
# Blobs in a chunked store

A commit writes every chunk before the blob's document is changed, so a committed blob
has all its chunks.  Reading takes only the chunks of the writer that the document
names, so what a writer whose lease lapsed left behind is never read.
-/

namespace ContentVault.ChunkedStore

/-! ## Claiming -/

/-- Claims an identifier, then takes away the chunks of earlier holders. -/
def claim (id : StoreId) (lease : Lease) (now : UInt64) : Client (Except StoreError Bool) := do
  match ← Client.upsertStore id (.reserved id lease) (·.isClaimable now) with
  | .error e => return .error e
  | .ok false => return .ok false
  | .ok true =>
    let _ ← Client.purgeChunks id (· != lease.token)
    return .ok true

/-! ## Committing -/

/-- What is kept about a record whose chunks were written under `writer`. -/
def metaOf (record : ContentRecord) (chunkCount : Nat) (writer : UInt64) : StoreMeta :=
  ⟨record.contentType, record.fileSize, record.status, UInt64.ofNat record.content.length,
    UInt32.ofNat chunkCount, writer⟩

/-- Takes the chunks of a failed writer away and ends with its error. -/
def abandon (id : StoreId) (writer : UInt64) (e : StoreError) :
    Client (Except StoreError Unit) := do
  let _ ← Client.purgeChunks id (· == writer)
  return .error e

/-- Marks the record committed if the lease still holds. -/
def commitMeta (r : Reservation StoreId) (m : StoreMeta) : Client (Except StoreError Unit) := do
  match ← Client.updateStore r.id (fun now doc => doc.isHeldBy r.lease.token now) (·.commit m) with
  | .ok true => return .ok ()
  | .ok false => abandon r.id r.lease.token r.notReserved
  | .error e => abandon r.id r.lease.token e

/-- Writes the chunks and then marks the record committed. -/
def store (config : ChunkedConfig) (schedule : List Nat) (r : Reservation StoreId)
    (record : ContentRecord) : Client (Except StoreError Unit) :=
  match Chunk.split record.content config.chunkSize.toNat with
  | .error e => .done (.error (.ofCodec e))
  | .ok pieces => do
    match ← writeChunks config.writeParallelism.toNat schedule r.id r.lease.token pieces with
    | .error e => abandon r.id r.lease.token e
    | .ok () => commitMeta r (metaOf record pieces.length r.lease.token)

/-- Commits a record under a live lease. -/
def commit (config : ChunkedConfig) (schedule : List Nat) (r : Reservation StoreId)
    (record : ContentRecord) : Client (Except StoreError Unit) :=
  if record.id ≠ r.id then .done (.error (r.mismatch record.id))
  else do
    match ← Client.findStore r.id with
    | none => return .error r.notReserved
    | some doc =>
      let now ← Client.readClock
      if doc.isHeldBy r.lease.token now then store config schedule r record
      else return .error r.notReserved

/-! ## Releasing -/

/-- Gives up a lease, then takes away the chunks written under it. -/
def release (r : Reservation StoreId) : Client (Except StoreError Bool) := do
  if ← Client.deleteStore r.id (·.isLeasedTo r.lease.token) then
    let _ ← Client.purgeChunks r.id (· == r.lease.token)
    return .ok true
  else return .ok false

/-! ## Reading -/

/-- The content that pieces make up, if they are what the description promises. -/
def assemble (id : StoreId) (m : StoreMeta) (pieces : List Chunk) : Except StoreError Bytes :=
  if pieces.length ≠ m.chunkCount.toNat then
    .error (.corruptData
      s!"{id.token}: expected {m.chunkCount.toNat} chunks, found {pieces.length}")
  else
    match Chunk.reassemble pieces with
    | .error e => .error (.ofCodec e)
    | .ok content =>
      if content.length ≠ m.compressedLength.toNat then
        .error (.corruptData (s!"{id.token}: expected {m.compressedLength.toNat} content bytes, "
          ++ s!"found {content.length}"))
      else .ok content

/-- The record that a description and pieces make up. -/
def readRecord (id : StoreId) (m : StoreMeta) (pieces : List Chunk) :
    Except StoreError ContentRecord :=
  match assemble id m pieces with
  | .error e => .error e
  | .ok content => .ok (m.toRecord id content)

/-- Reads a committed blob. -/
def getStore (id : StoreId) : Client (Except StoreError (Option ContentRecord)) := do
  match (← Client.findStore id).bind (·.record?) with
  | none => return .ok none
  | some m =>
    let found ← Client.scanChunks (.first id m.writer)
      fun key => key.store == id && key.writer == m.writer
    return match readRecord id m (found.map fun (key, doc) => doc.toChunk key) with
      | .error e => .error e
      | .ok record => .ok (some record)

/-- The committed blobs among documents. -/
def committed (docs : List (StoreId × StoreDoc)) : List (StoreId × StoreMeta) :=
  docs.filterMap fun (id, doc) => doc.record?.map fun m => (id, m)

/-- The chunks that belong to one of the committed blobs, by blob. -/
def piecesOf (blobs : List (StoreId × StoreMeta)) (found : List (ChunkKey × ChunkDoc)) :
    OrderedMap StoreId (List Chunk) :=
  Chunk.groupByOwner <| found.filterMap fun (key, doc) =>
    if blobs.any fun (id, m) => id == key.store && m.writer == key.writer then
      some (key.store, doc.toChunk key)
    else none

/-- The records of committed blobs that can be read. -/
def readable (blobs : List (StoreId × StoreMeta)) (pieces : OrderedMap StoreId (List Chunk)) :
    List ContentRecord :=
  blobs.filterMap fun (id, m) => (readRecord id m ((pieces.get? id).getD [])).toOption

/-- Reads every committed blob of a checksum that can be read. -/
def matchHash (hash : UInt32) : Client (Except StoreError (List ContentRecord)) := do
  let blobs := committed (← Client.scanStores ⟨hash, 0⟩ fun id => id.hash == hash)
  if blobs.isEmpty then return .ok []
  else
    let found ← Client.scanChunks (.first ⟨hash, 0⟩ 0) fun key => key.store.hash == hash
    return .ok (readable blobs (piecesOf blobs found))

/-! ## Changing the status -/

/-- Changes the status of a committed blob. -/
def updateStatus (id : StoreId) (status : Status) : Client (Except StoreError Unit) := do
  match ← Client.updateStore id (fun _ doc => doc.record?.isSome)
      (fun doc => { doc with record? := doc.record?.map fun m => { m with status } }) with
  | .error e => return .error e
  | .ok true => return .ok ()
  | .ok false => return .error (Identifier.absent id)

end ContentVault.ChunkedStore
