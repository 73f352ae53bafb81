import ContentVault.Failure
import ContentVault.Store.Error
set_option autoImplicit false

/-!
# Settings of a chunked store
-/

namespace ContentVault

/-- How a chunked store cuts and writes content. -/
structure ChunkedConfig where
  chunkSize : UInt64
  maxRecordBytes : UInt64
  /-- Number of lanes in which the chunks of one record are written. -/
  writeParallelism : UInt64
  deriving DecidableEq, Repr

namespace ChunkedConfig

/-- Chunks of 15 MiB in records of at most 16 MiB, written in four lanes. -/
def standard : ChunkedConfig := ⟨15728640, 16777216, 4⟩

instance : Inhabited ChunkedConfig := ⟨standard⟩

/-- Bytes that a chunk document may spend beside its data. -/
def overhead : UInt64 := 64

/-- Checks that chunks are not empty, fit into a record, and have a lane to be written in; panics if
a chunk and the bytes beside it are too many to be counted. -/
def validate (c : ChunkedConfig) : Except (Failure StoreError) Unit :=
  if c.chunkSize = 0 then .error (.answered (.invalidConfig "chunk_size must be positive"))
  else
    match checkedAdd c.chunkSize overhead with
    | .error failure => .error failure
    | .ok size =>
      if c.maxRecordBytes < size then
        .error (.answered (.invalidConfig
          (s!"chunk_size {c.chunkSize.toNat} plus {overhead.toNat} bytes of "
            ++ s!"overhead exceeds the record limit {c.maxRecordBytes.toNat}")))
      else if c.writeParallelism = 0 then
        .error (.answered (.invalidConfig "write_parallelism must be at least 1"))
      else .ok ()

theorem validate_eq_ok_iff (c : ChunkedConfig) :
    c.validate = .ok () ↔ c.chunkSize ≠ 0 ∧
      c.chunkSize.toNat + 64 ≤ c.maxRecordBytes.toNat ∧ c.writeParallelism ≠ 0 := by
  unfold validate
  split
  next hzero => exact ⟨fun h => (by cases h), fun h => absurd hzero h.1⟩
  next hpositive =>
    by_cases hexact : c.chunkSize.toNat + overhead.toNat < UInt64.size
    · have hsum : (c.chunkSize + overhead).toNat = c.chunkSize.toNat + 64 := by
        rw [UInt64.toNat_add, Nat.mod_eq_of_lt hexact]
        rfl
      simp only [checkedAdd_of_lt hexact, UInt64.lt_iff_toNat_lt, hsum]
      split
      next hlarge => exact ⟨fun h => (by cases h), fun h => absurd h.2.1 (Nat.not_le.mpr hlarge)⟩
      next hroom =>
        split
        next hzero => exact ⟨fun h => (by cases h), fun h => absurd hzero h.2.2⟩
        next hlanes => exact ⟨fun _ => ⟨hpositive, Nat.not_lt.mp hroom, hlanes⟩, fun _ => rfl⟩
    · have hlarge := Nat.lt_of_lt_of_le c.maxRecordBytes.toNat_lt (Nat.not_lt.mp hexact)
      simp only [checkedAdd_of_le (Nat.not_lt.mp hexact)]
      exact ⟨fun h => (by cases h), fun h => absurd h.2.1 (Nat.not_le.mpr hlarge)⟩

theorem validate_eq_panicked_iff (c : ChunkedConfig) :
    c.validate = .error .panicked ↔
      c.chunkSize ≠ 0 ∧ UInt64.size ≤ c.chunkSize.toNat + 64 := by
  unfold validate
  split
  next hzero => exact ⟨fun h => (by cases h), fun h => absurd hzero h.1⟩
  next hpositive =>
    by_cases hexact : c.chunkSize.toNat + overhead.toNat < UInt64.size
    · simp only [checkedAdd_of_lt hexact]
      refine ⟨fun h => ?_, fun h => absurd h.2 (Nat.not_le.mpr hexact)⟩
      split at h
      · cases h
      · split at h <;> cases h
    · simp only [checkedAdd_of_le (Nat.not_lt.mp hexact)]
      exact ⟨fun _ => ⟨hpositive, Nat.not_lt.mp hexact⟩, fun _ => trivial⟩

/-- The form shown in diagnostics. -/
def describe (c : ChunkedConfig) : String :=
  s!"ChunkedConfig \x7b chunk_size: {c.chunkSize.toNat}, "
    ++ s!"max_record_bytes: {c.maxRecordBytes.toNat}, "
    ++ s!"write_parallelism: {c.writeParallelism.toNat} \x7d"

end ChunkedConfig

end ContentVault
