import ContentVault.Content.Error
set_option autoImplicit false

/-!
# What can go wrong in a store
-/

namespace ContentVault

/-- Why a reservation or an operation of a backend failed. -/
inductive StoreError where
  /-- There is no committed record. -/
  | notFound (kind id : String)
  /-- A commit without a live reservation held by the caller. -/
  | idNotReserved (id : String)
  /-- A commit of a record under another identifier than the reserved one. -/
  | idMismatch (reserved payload : String)
  /-- Stored bytes break a rule of the store. -/
  | corruptData (reason : String)
  /-- The deadline passed. -/
  | timeout
  /-- Every attempt to claim an identifier failed. -/
  | reservationExhausted (candidate : String) (attempts : Nat)
  | recordTooLarge (collection : String) (size limit : Nat)
  | duplicateKey (collection key : String)
  | invalidConfig (reason : String)
  | serialization (reason : String)
  | lockPoisoned (what : String)
  | writerPanicked
  /-- Compressing or cutting into chunks failed. -/
  | codec (error : CodecError)
  deriving DecidableEq, Repr, Inhabited

namespace StoreError

/-- The name of the kind of error; that of a content error stands after a slash. -/
def name : StoreError → String
  | .notFound .. => "NotFound"
  | .idNotReserved _ => "IdNotReserved"
  | .idMismatch .. => "IdMismatch"
  | .corruptData _ => "CorruptData"
  | .timeout => "Timeout"
  | .reservationExhausted .. => "ReservationExhausted"
  | .recordTooLarge .. => "RecordTooLarge"
  | .duplicateKey .. => "DuplicateKey"
  | .invalidConfig _ => "InvalidConfig"
  | .serialization _ => "Serialization"
  | .lockPoisoned _ => "LockPoisoned"
  | .writerPanicked => "WriterPanicked"
  | .codec error => s!"Codec/{error.name}"

/-- The wording of a store error. -/
def message : StoreError → String
  | .notFound kind id => s!"{kind} not found: {id}"
  | .idNotReserved id => s!"id has not been reserved for insert: {id}"
  | .idMismatch reserved payload =>
    s!"payload id {payload} does not match reserved id {reserved}"
  | .corruptData reason => s!"corrupt data: {reason}"
  | .timeout => "operation timed out"
  | .reservationExhausted candidate attempts =>
    s!"could not reserve an id starting from {candidate} after {attempts} attempts"
  | .recordTooLarge collection size limit =>
    s!"record in {collection} is {size} bytes, limit is {limit}"
  | .duplicateKey collection key => s!"duplicate key in {collection}: {key}"
  | .invalidConfig reason => s!"invalid backend configuration: {reason}"
  | .serialization reason => s!"serialization error: {reason}"
  | .lockPoisoned what => s!"lock poisoned: {what}"
  | .writerPanicked => "chunk writer thread panicked"
  | .codec error => s!"codec error: {error.message}"

/-- The record does not exist. -/
def isNotFound : StoreError → Bool
  | .notFound .. => true
  | _ => false

/-- The HTTP status to answer with. -/
def httpStatus : StoreError → Nat
  | .notFound .. => 404
  | .timeout => 504
  | _ => 500

/-- A content error as a store error; corruption keeps its name. -/
def ofCodec : CodecError → StoreError
  | .corruptData reason => .corruptData reason
  | e => .codec e

end StoreError

end ContentVault
