import ContentVault.Json.Fields
import ContentVault.Toml.Reader
import ContentVault.Vault.Error
import ContentVault.Vault.Reserver
set_option autoImplicit false

/-!
# Configuration of a vault

Nine numbers, each with a default, so that a text names only those it changes.  A
configuration is read from TOML, or from JSON as part of something larger, and checked
before it is used.
-/

namespace ContentVault

/-- The settings of a vault and its backend. -/
structure StoreConfig where
  /-- Largest chunk of content. -/
  chunkSize : UInt64 := 15728640
  /-- Most bytes of one document. -/
  maxRecordBytes : UInt64 := 16777216
  /-- Lanes in which the chunks of one record are written. -/
  writeParallelism : UInt64 := 4
  compressionLevel : Int32 := 3
  /-- How long an identifier stays reserved without a commit. -/
  reservationTtlSecs : UInt64 := 86400
  maxReserveAttempts : UInt32 := 1024
  backoffBaseMicros : UInt64 := 200
  backoffMaxMillis : UInt64 := 20
  /-- Time limit of an upload or download; zero means none. -/
  operationTimeoutMillis : UInt64 := 30000
  deriving DecidableEq, Repr, Inhabited

namespace StoreConfig

/-! ## What the settings mean -/

/-- The settings of the chunked store. -/
def chunked (c : StoreConfig) : ChunkedConfig :=
  ⟨c.chunkSize, c.maxRecordBytes, c.writeParallelism⟩

/-- How identifiers are reserved. -/
def reservationPolicy (c : StoreConfig) : ReservationPolicy :=
  ⟨.ofSecs c.reservationTtlSecs.toNat, c.maxReserveAttempts,
    .ofMicros c.backoffBaseMicros.toNat, .ofMillis c.backoffMaxMillis.toNat⟩

/-- The time limit of an operation, if there is one. -/
def operationTimeout? (c : StoreConfig) : Option Duration :=
  if c.operationTimeoutMillis = 0 then none else some (.ofMillis c.operationTimeoutMillis.toNat)

/-- The deadline of an operation that starts at `now`. -/
def deadlineAt (c : StoreConfig) (now : Instant) : Deadline :=
  match c.operationTimeout? with
  | none => .never
  | some timeout => .after now timeout

/-- The deadline of an operation that starts now. -/
def deadline (c : StoreConfig) : Procedure Deadline := do
  return c.deadlineAt (← ask .readTimer)

/-- Checks the settings; the first fault is reported. -/
def validate (c : StoreConfig) : Except (Failure VaultError) Unit :=
  match c.chunked.validate with
  | .error failure => .error (failure.map fun e => .invalidConfig e.message)
  | .ok () =>
    if c.compressionLevel < 1 ∨ 22 < c.compressionLevel then
      .error (.answered
        (.invalidConfig s!"compression_level {c.compressionLevel.toInt} is outside 1..=22"))
    else if c.reservationTtlSecs = 0 then
      .error (.answered (.invalidConfig "reservation_ttl_secs must be positive"))
    else if c.maxReserveAttempts = 0 then
      .error (.answered (.invalidConfig "max_reserve_attempts must be positive"))
    else if c.backoffMaxMillis.toNat * 1000 < c.backoffBaseMicros.toNat then
      .error (.answered (.invalidConfig "backoff_base_micros exceeds backoff_max_millis"))
    else .ok ()

/-! ## The fields by name -/

/-- The fields by name, as numbers, in the order in which they are written. -/
def fields (c : StoreConfig) : List (String × Int) :=
  [("chunk_size", c.chunkSize.toNat), ("max_record_bytes", c.maxRecordBytes.toNat),
    ("write_parallelism", c.writeParallelism.toNat),
    ("compression_level", c.compressionLevel.toInt),
    ("reservation_ttl_secs", c.reservationTtlSecs.toNat),
    ("max_reserve_attempts", c.maxReserveAttempts.toNat),
    ("backoff_base_micros", c.backoffBaseMicros.toNat),
    ("backoff_max_millis", c.backoffMaxMillis.toNat),
    ("operation_timeout_millis", c.operationTimeoutMillis.toNat)]

/-- The names of the fields. -/
def names : List String := (default : StoreConfig).fields.map (·.1)

/-- The form shown in diagnostics. -/
def describe (c : StoreConfig) : String :=
  "StoreConfig \x7b "
    ++ ", ".intercalate (c.fields.map fun (name, n) => s!"{name}: {n}") ++ " \x7d"

/-- A number of the field, if it is within the range of `bound` values from zero on. -/
def wordBelow? (bound : Nat) (n : Int) : Option Nat :=
  if 0 ≤ n ∧ n < bound then some n.toNat else none

/-- The configuration with the given numbers, those not given at their defaults, if each is within
the range of its field. -/
def ofFields? (get : String → Option Int) : Option StoreConfig := do
  let base : StoreConfig := {}
  let word64 (name : String) (default : UInt64) : Option UInt64 :=
    match get name with
    | none => some default
    | some n => (wordBelow? UInt64.size n).map UInt64.ofNat
  let chunkSize ← word64 "chunk_size" base.chunkSize
  let maxRecordBytes ← word64 "max_record_bytes" base.maxRecordBytes
  let writeParallelism ← word64 "write_parallelism" base.writeParallelism
  let compressionLevel ← match get "compression_level" with
    | none => some base.compressionLevel
    | some n => if -0x80000000 ≤ n ∧ n < 0x80000000 then some (Int32.ofInt n) else none
  let reservationTtlSecs ← word64 "reservation_ttl_secs" base.reservationTtlSecs
  let maxReserveAttempts ← match get "max_reserve_attempts" with
    | none => some base.maxReserveAttempts
    | some n => (wordBelow? UInt32.size n).map UInt32.ofNat
  let backoffBaseMicros ← word64 "backoff_base_micros" base.backoffBaseMicros
  let backoffMaxMillis ← word64 "backoff_max_millis" base.backoffMaxMillis
  let operationTimeoutMillis ← word64 "operation_timeout_millis" base.operationTimeoutMillis
  some { chunkSize, maxRecordBytes, writeParallelism, compressionLevel, reservationTtlSecs,
         maxReserveAttempts, backoffBaseMicros, backoffMaxMillis, operationTimeoutMillis }

/-! ## TOML -/

/-- The text of a configuration, a line for each field; numbers of 2^63 and more have none. -/
def toToml? (c : StoreConfig) : Option String :=
  if c.fields.all fun (_, n) => n < 0x8000000000000000 then
    some (String.join (c.fields.map fun (name, n) => s!"{name} = {n}\n"))
  else none

/-- The numbers that a table gives to the fields, if all of those that it gives are integers. -/
def numbers? (ms : Toml.Members) : Option (String → Option Int) :=
  let isInteger (name : String) : Bool :=
    match ms.get? name with
    | none => true
    | some (.integer _) => true
    | some _ => false
  if names.all isInteger then
    some fun name =>
      match ms.get? name with
      | some (.integer n) => some n
      | _ => none
  else none

/-- Reads a configuration and checks it. -/
def ofToml (text : String) : Except (Failure VaultError) StoreConfig :=
  match (Toml.read text).bind fun ms => (numbers? ms).bind ofFields? with
  | none => .error (.answered (.configParse "no configuration"))
  | some c =>
    match c.validate with
    | .error failure => .error failure
    | .ok () => .ok c

/-! ## JSON -/

/-- The integer that a value stands for. -/
def integerOfJson? : Json.Value → Option Int
  | .number (.natural n) => some n
  | .number (.negative n) => some (-n)
  | _ => none

/-- The JSON number of an integer of at most 64 bits. -/
def jsonOfInteger (n : Int) : Json.Value :=
  .number (if n < 0 then .negative n.natAbs else .natural n.natAbs)

/-- The object of a configuration. -/
def toJson (c : StoreConfig) : Json.Value :=
  .ofMembers (c.fields.map fun (name, n) => (name, jsonOfInteger n))

/-- Reads a configuration, which is not checked. -/
def ofJson? (v : Json.Value) : Option StoreConfig := do
  let values ← v.fields? names
  let given := names.zip values
  if given.all fun (_, v) => v.all fun v => (integerOfJson? v).isSome then
    ofFields? fun name =>
      match given.find? fun (n, _) => n == name with
      | some (_, some v) => integerOfJson? v
      | _ => none
  else none

end StoreConfig

end ContentVault
