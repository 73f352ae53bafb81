import ContentVault.Store.SlotMap
import ContentVault.Time.Clock
set_option autoImplicit false

/-!
# A store in memory

Two slot maps behind one lock: every operation is a single step.
-/

namespace ContentVault

/-- The slots of blobs and of files. -/
structure MemoryStore where
  stores : SlotMap StoreId ContentRecord
  files : SlotMap FileId FileRecord
  deriving Inhabited

namespace MemoryStore

/-- Nothing is stored or reserved. -/
def empty : MemoryStore := ⟨.empty, .empty⟩

/-- Number of committed blobs. -/
def storeCount (s : MemoryStore) : Nat := s.stores.records.length

/-- Number of committed files. -/
def fileCount (s : MemoryStore) : Nat := s.files.records.length

/-- Compressed bytes of all committed blobs. -/
def totalBytes (s : MemoryStore) : Nat :=
  s.stores.records.foldl (fun total record => total + record.compressedLength) 0

/-- The form shown in diagnostics. -/
def describe (s : MemoryStore) : String :=
  s!"InMemoryBackend \x7b store_slots: {s.stores.size}, file_slots: {s.files.size} \x7d"

/-! ## Blobs -/

/-- Commits a blob under a live lease. -/
def commitStore (s : Clocked MemoryStore) (r : Reservation StoreId) (record : ContentRecord) :
    Except StoreError Unit × Clocked MemoryStore :=
  if record.id ≠ r.id then (.error (r.mismatch record.id), s)
  else
    let (now, clock) := s.clock.read
    let (done, stores) := s.state.stores.commit r record now
    (done, ⟨{ s.state with stores }, clock⟩)

/-- The committed blobs of a checksum, in identifier order. -/
def matchHash (s : MemoryStore) (hash : UInt32) : List ContentRecord :=
  s.stores.recordsWhere fun id => id.hash == hash

/-- Changes the status of a committed blob. -/
def updateStatus (s : MemoryStore) (id : StoreId) (status : Status) :
    Except StoreError Unit × MemoryStore :=
  let (done, stores) := s.stores.replace id fun record => { record with status }
  (if done then .ok () else .error (Identifier.absent id), { s with stores })

/-! ## Files -/

/-- Commits a file under a live lease. -/
def commitFile (s : Clocked MemoryStore) (r : Reservation FileId) (record : FileRecord) :
    Except StoreError Unit × Clocked MemoryStore :=
  if record.id ≠ r.id then (.error (r.mismatch record.id), s)
  else
    let (now, clock) := s.clock.read
    let (done, files) := s.state.files.commit r record now
    (done, ⟨{ s.state with files }, clock⟩)

/-- Puts another record in the place of a committed file. -/
def updateFile (s : MemoryStore) (record : FileRecord) : Except StoreError Unit × MemoryStore :=
  let (done, files) := s.files.replace record.id fun _ => record
  (if done then .ok () else .error (Identifier.absent record.id), { s with files })

/-- Deletes a committed file. -/
def removeFile (s : MemoryStore) (id : FileId) : Except StoreError Unit × MemoryStore :=
  let (done, files) := s.files.remove id
  (if done then .ok () else .error (Identifier.absent id), { s with files })

/-- The committed files over a blob, in identifier order. -/
def filesForStore (s : MemoryStore) (store : StoreId) : List FileRecord :=
  s.files.recordsWhere fun id => id.store == store

end MemoryStore

end ContentVault
