import ContentVault.Program
import ContentVault.Store.Chunked.Config
import ContentVault.Store.Chunked.Document
import ContentVault.Time.Clock
set_option autoImplicit false

/-!
# The state of a chunked store and its indivisible steps

A chunked store is three collections.  Whatever a client does to it is a program whose
steps are single operations on one collection, or looks at the clock; nothing larger is
indivisible.
-/

namespace ContentVault

/-- The three collections of a chunked store. -/
structure ChunkedStore where
  config : ChunkedConfig
  stores : Collection StoreId StoreDoc
  chunks : Collection ChunkKey ChunkDoc
  files : Collection FileId FileDoc

namespace ChunkedStore

/-- A store without documents. -/
def empty (config : ChunkedConfig) : ChunkedStore :=
  let limit := config.maxRecordBytes.toNat
  ⟨config, .empty "stores" limit, .empty "chunks" limit, .empty "files" limit⟩

instance : Inhabited ChunkedStore := ⟨empty default⟩

/-- A store without documents, if its settings are usable. -/
def create (config : ChunkedConfig) : Except (Failure StoreError) ChunkedStore :=
  match config.validate with
  | .error failure => .error failure
  | .ok () => .ok (empty config)

theorem create_eq_ok_iff {config : ChunkedConfig} {s : ChunkedStore} :
    create config = .ok s ↔ config.validate = .ok () ∧ s = empty config := by
  unfold create
  split
  next failure hvalid => simp [hvalid]
  next hvalid => simp [hvalid, eq_comm]

/-- Number of chunk documents, whoever wrote them. -/
def chunkCount (s : ChunkedStore) : Nat := s.chunks.size

/-- Number of file identifiers that are reserved or committed. -/
def fileSlotCount (s : ChunkedStore) : Nat := s.files.size

/-- The form shown in diagnostics. -/
def describe (s : ChunkedStore) : String :=
  s!"ChunkedBackend \x7b config: {s.config.describe}, stores: {s.stores.describe}, "
    ++ s!"chunks: {s.chunks.describe}, files: {s.files.describe} \x7d"

/-! ## Indivisible steps -/

/-- A program on a chunked store and its clock. -/
abbrev Client (α : Type) := Program (Atomic (Clocked ChunkedStore)) α

namespace Client

/-- Looks at the clock. -/
def readClock : Client UInt64 :=
  .request fun s =>
    let (now, clock) := s.clock.read
    (now, { s with clock })

/-- Reads the document of a blob. -/
def findStore (id : StoreId) : Client (Option StoreDoc) :=
  .request fun s => (s.state.stores.find id, s)

/-- Reads a run of blob documents. -/
def scanStores (start : StoreId) (keep : StoreId → Bool) : Client (List (StoreId × StoreDoc)) :=
  .request fun s => (s.state.stores.scanFrom start keep, s)

/-- Puts a blob document where there is none or a replaceable one. -/
def upsertStore (id : StoreId) (doc : StoreDoc) (replaceable : StoreDoc → Bool) :
    Client (Except StoreError Bool) :=
  .request fun s =>
    let (done, stores) := s.state.stores.upsertIf id doc replaceable
    (done, { s with state := { s.state with stores } })

/-- Changes a blob document that is accepted at the reading of the clock at that moment; the
clock is not looked at if there is no document. -/
def updateStore (id : StoreId) (accepts : UInt64 → StoreDoc → Bool) (change : StoreDoc → StoreDoc) :
    Client (Except StoreError Bool) :=
  .request fun s =>
    if s.state.stores.records.contains id then
      let (now, clock) := s.clock.read
      let (done, stores) := s.state.stores.updateIf id (accepts now) change
      (done, ⟨{ s.state with stores }, clock⟩)
    else (.ok false, s)

/-- Deletes a blob document that is accepted. -/
def deleteStore (id : StoreId) (accepts : StoreDoc → Bool) : Client Bool :=
  .request fun s =>
    let (done, stores) := s.state.stores.deleteIf id accepts
    (done, { s with state := { s.state with stores } })

/-- Adds a chunk under a new key. -/
def insertChunk (key : ChunkKey) (doc : ChunkDoc) : Client (Except StoreError Unit) :=
  .request fun s =>
    let (done, chunks) := s.state.chunks.insert key doc
    (done, { s with state := { s.state with chunks } })

/-- Reads a run of chunks. -/
def scanChunks (start : ChunkKey) (keep : ChunkKey → Bool) : Client (List (ChunkKey × ChunkDoc)) :=
  .request fun s => (s.state.chunks.scanFrom start keep, s)

/-- Deletes those chunks of a blob whose writers are doomed; tells how many. -/
def purgeChunks (id : StoreId) (doomed : UInt64 → Bool) : Client Nat :=
  .request fun s =>
    let (count, chunks) := s.state.chunks.deleteRangeWhere (.first id 0)
      (fun key => key.store == id) (fun key _ => doomed key.writer)
    (count, { s with state := { s.state with chunks } })

end Client

end ChunkedStore

end ContentVault
