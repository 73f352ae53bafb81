import ContentVault.Vault.ContentStore
set_option autoImplicit false

/-!
# Files by name

A file gives a name and an owner to a stored blob.  Its identifier goes through the same
steps of reserving and committing; removing a file leaves its blob where it is.
-/

namespace ContentVault

/-- The files over the backend of their world. -/
structure FileIndex where
  reserver : Reserver
  deriving DecidableEq, Repr, Inhabited

namespace FileIndex

open ContentStore (ofStore)

/-- The files of a configuration, with leases measured by the given clock. -/
def ofConfig (c : StoreConfig) (clock : ClockKind) : FileIndex := ⟨⟨c.reservationPolicy, clock⟩⟩

/-- The form shown in diagnostics while the manual clock stands at `now`. -/
def describe (i : FileIndex) (now : UInt64) : String :=
  s!"FileIndex \x7b reserver: {i.reserver.describe now} \x7d"

/-- A fresh candidate for a file over a blob. -/
def candidate (store : StoreId) : Procedure FileId := do return .first store (← ask .stampByte)

/-- Reserves an identifier. -/
def reserve (i : FileIndex) (candidate : FileId) (deadline : Deadline) :
    Procedure (Except VaultError (Reservation FileId)) := do
  return ofStore (← i.reserver.reserve candidate deadline)

/-- Commits a file under a reservation. -/
def insert (i : FileIndex) (r : Reservation FileId) (name owner : String) :
    Procedure (Except VaultError FileRecord) := do
  let record : FileRecord := ⟨r.id, name, owner, ← ask .today⟩
  return match ← i.reserver.commit r record with
    | .error e => .error (.store e)
    | .ok () => .ok record

/-- Gives a reservation up without a file. -/
def release (r : Reservation FileId) : Procedure (Except VaultError Bool) := do
  return ofStore (← Reserver.release r)

/-- Reads a file. -/
def get (id : FileId) : Procedure (Except VaultError FileRecord) := do
  return ofStore (Identifier.require id (← ask (.getFile id)))

/-- Gives a file another name: the record is read, and written back with the name. -/
def rename (id : FileId) (name : String) : Procedure (Except VaultError FileRecord) := do
  match ← get id with
  | .error e => return .error e
  | .ok record =>
    let renamed := { record with name }
    return match ← ask (.updateFile renamed) with
      | .error e => .error (.store e)
      | .ok () => .ok renamed

/-- Removes a file. -/
def remove (id : FileId) : Procedure (Except VaultError Unit) := do
  return ofStore (← ask (.removeFile id))

/-- The files over a blob. -/
def filesForStore (store : StoreId) : Procedure (Except VaultError (List FileRecord)) := do
  return ofStore (← ask (.filesForStore store))

end FileIndex

end ContentVault
