import ContentVault.Store.Chunked.State
set_option autoImplicit false

/-!
# Files in a chunked store

A file is one document, so every operation on files is a single step.
-/

namespace ContentVault.ChunkedStore

/-- Carries out one operation on the documents of files. -/
def onFiles {α : Type} (s : ChunkedStore)
    (action : Collection FileId FileDoc → α × Collection FileId FileDoc) : α × ChunkedStore :=
  let (a, files) := action s.files
  (a, { s with files })

/-- Claims an identifier. -/
def claimFile (s : ChunkedStore) (id : FileId) (lease : Lease) (now : UInt64) :
    Except StoreError Bool × ChunkedStore :=
  s.onFiles fun files => files.upsertIf id (.reserved id lease) (·.isClaimable now)

/-- Commits a file under a live lease; the clock is looked at if there is a document. -/
def commitFile (s : Clocked ChunkedStore) (r : Reservation FileId) (record : FileRecord) :
    Except StoreError Unit × Clocked ChunkedStore :=
  if record.id ≠ r.id then (.error (r.mismatch record.id), s)
  else if s.state.files.records.contains r.id then
    let (now, clock) := s.clock.read
    let (done, state) := s.state.onFiles fun files =>
      files.updateIf r.id (·.isHeldBy r.lease.token now) (·.commit record)
    let answer := match done with
      | .error e => .error e
      | .ok true => .ok ()
      | .ok false => .error r.notReserved
    (answer, ⟨state, clock⟩)
  else (.error r.notReserved, s)

/-- Gives up a lease. -/
def releaseFile (s : ChunkedStore) (r : Reservation FileId) :
    Except StoreError Bool × ChunkedStore :=
  s.onFiles fun files =>
    let (done, files) := files.deleteIf r.id (·.isLeasedTo r.lease.token)
    (.ok done, files)

/-- Reads a committed file. -/
def getFile (s : ChunkedStore) (id : FileId) : Option FileRecord :=
  (s.files.find id).bind (·.record?)

/-- Puts another record in the place of a committed file. -/
def updateFile (s : ChunkedStore) (record : FileRecord) : Except StoreError Unit × ChunkedStore :=
  s.onFiles fun files =>
    let (done, files) := files.updateIf record.id (·.record?.isSome)
      fun doc => { doc with record? := some record }
    (match done with
      | .error e => .error e
      | .ok true => .ok ()
      | .ok false => .error (Identifier.absent record.id), files)

/-- Deletes a committed file. -/
def removeFile (s : ChunkedStore) (id : FileId) : Except StoreError Unit × ChunkedStore :=
  s.onFiles fun files =>
    let (done, files) := files.deleteIf id (·.record?.isSome)
    (if done then .ok () else .error (Identifier.absent id), files)

/-- The committed files over a blob, in identifier order. -/
def filesForStore (s : ChunkedStore) (store : StoreId) : List FileRecord :=
  (s.files.scanFrom ⟨store, []⟩ fun id => id.store == store).filterMap fun (_, doc) => doc.record?

end ContentVault.ChunkedStore
