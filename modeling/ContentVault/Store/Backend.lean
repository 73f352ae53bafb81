import ContentVault.Store.Chunked.Content
import ContentVault.Store.Chunked.Files
import ContentVault.Store.Memory
set_option autoImplicit false

/-!
# Backends

What a vault asks of the store beneath it: to claim, commit and release identifiers of
blobs and of files, and to read and change what is committed.  Here every operation is
carried out whole; a chunked store runs the steps of the operation one after the other
with nothing in between.
-/

namespace ContentVault

/-- A store of blobs and files. -/
class Backend (σ : Type) where
  /-- Claims the identifier of a blob; tells whether it was claimable. -/
  claimStore (id : StoreId) (lease : Lease) (now : UInt64) : Atomic σ (Except StoreError Bool)
  /-- Commits a blob under a live lease. -/
  commitStore (r : Reservation StoreId) (record : ContentRecord) :
    Atomic (Clocked σ) (Except StoreError Unit)
  /-- Gives up the lease on the identifier of a blob; tells whether it was held. -/
  releaseStore (r : Reservation StoreId) : Atomic σ (Except StoreError Bool)
  /-- Reads a committed blob. -/
  getStore (id : StoreId) : Atomic σ (Except StoreError (Option ContentRecord))
  /-- Reads the committed blobs of a checksum. -/
  matchHash (hash : UInt32) : Atomic σ (Except StoreError (List ContentRecord))
  /-- Changes the status of a committed blob. -/
  updateStatus (id : StoreId) (status : Status) : Atomic σ (Except StoreError Unit)
  /-- Claims the identifier of a file; tells whether it was claimable. -/
  claimFile (id : FileId) (lease : Lease) (now : UInt64) : Atomic σ (Except StoreError Bool)
  /-- Commits a file under a live lease. -/
  commitFile (r : Reservation FileId) (record : FileRecord) :
    Atomic (Clocked σ) (Except StoreError Unit)
  /-- Gives up the lease on the identifier of a file; tells whether it was held. -/
  releaseFile (r : Reservation FileId) : Atomic σ (Except StoreError Bool)
  /-- Reads a committed file. -/
  getFile (id : FileId) : Atomic σ (Except StoreError (Option FileRecord))
  /-- Puts another record in the place of a committed file. -/
  updateFile (record : FileRecord) : Atomic σ (Except StoreError Unit)
  /-- Deletes a committed file. -/
  removeFile (id : FileId) : Atomic σ (Except StoreError Unit)
  /-- Reads the committed files over a blob. -/
  filesForStore (store : StoreId) : Atomic σ (Except StoreError (List FileRecord))

/-- Reads several blobs, up to the first read that fails. -/
def Backend.getStores {σ : Type} [Backend σ] :
    List StoreId → Atomic σ (Except StoreError (List (Option ContentRecord)))
  | [], s => (.ok [], s)
  | id :: ids, s =>
    match getStore id s with
    | (.error e, s) => (.error e, s)
    | (.ok record?, s) =>
      match getStores ids s with
      | (.error e, s) => (.error e, s)
      | (.ok records, s) => (.ok (record? :: records), s)

/-- A read that always succeeds and changes nothing. -/
def Atomic.look {σ α : Type} (f : σ → α) : Atomic σ (Except StoreError α) := fun s => (.ok (f s), s)

/-- An action on a part of a state that always succeeds. -/
def Atomic.within {σ τ α : Type} (get : σ → τ) (set : τ → σ → σ) (action : Atomic τ α) :
    Atomic σ (Except StoreError α) :=
  fun s =>
    let (a, t) := action (get s)
    (.ok a, set t s)

/-! ## In memory -/

namespace MemoryStore

/-- An action on the slots of blobs. -/
def onStores {α : Type} (action : Atomic (SlotMap StoreId ContentRecord) α) :
    Atomic MemoryStore (Except StoreError α) :=
  .within (·.stores) (fun stores s => { s with stores }) action

/-- An action on the slots of files. -/
def onFiles {α : Type} (action : Atomic (SlotMap FileId FileRecord) α) :
    Atomic MemoryStore (Except StoreError α) :=
  .within (·.files) (fun files s => { s with files }) action

instance : Backend MemoryStore where
  claimStore id lease now := onStores (·.claim id lease now)
  commitStore r record s := commitStore s r record
  releaseStore r := onStores (·.release r)
  getStore id := .look (·.stores.record? id)
  matchHash hash := .look (·.matchHash hash)
  updateStatus id status s := s.updateStatus id status
  claimFile id lease now := onFiles (·.claim id lease now)
  commitFile r record s := commitFile s r record
  releaseFile r := onFiles (·.release r)
  getFile id := .look (·.files.record? id)
  updateFile record s := s.updateFile record
  removeFile id s := s.removeFile id
  filesForStore store := .look (·.filesForStore store)

end MemoryStore

/-! ## In chunks -/

namespace ChunkedStore

/-- Runs a client's program alone. -/
def Client.alone {α : Type} (p : Client α) : Atomic (Clocked ChunkedStore) α :=
  p.run Program.perform

/-- Runs a program that does not look at the clock. -/
def Client.unclocked {α : Type} (p : Client α) : Atomic ChunkedStore α := fun s =>
  let (a, s) := p.alone ⟨s, .still 0⟩
  (a, s.state)

instance : Backend ChunkedStore where
  claimStore id lease now := (claim id lease now).unclocked
  commitStore r record s := (commit s.state.config [] r record).alone s
  releaseStore r := (release r).unclocked
  getStore id := (getStore id).unclocked
  matchHash hash := (matchHash hash).unclocked
  updateStatus id status := (updateStatus id status).unclocked
  claimFile id lease now s := s.claimFile id lease now
  commitFile r record s := commitFile s r record
  releaseFile r s := s.releaseFile r
  getFile id := .look (·.getFile id)
  updateFile record s := s.updateFile record
  removeFile id s := s.removeFile id
  filesForStore store := .look (·.filesForStore store)

end ChunkedStore

/-! ## Reads that need a record -/

/-- What a read found under an identifier, or the error that there is nothing. -/
def Identifier.require {κ ρ : Type} [Identifier κ] (id : κ) :
    Except StoreError (Option ρ) → Except StoreError ρ
  | .error e => .error e
  | .ok none => .error (absent id)
  | .ok (some record) => .ok record

end ContentVault
