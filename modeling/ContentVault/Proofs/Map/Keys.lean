import ContentVault.Ident.FileId
import ContentVault.Proofs.Map.Run
import ContentVault.Store.Chunked.Document
set_option autoImplicit false

/-!
# Runs of keys with a common prefix

Identifiers and chunk keys are ordered field by field, so the keys that agree in the
leading fields stand together, and the key whose other fields are least comes first of
them.
-/

namespace ContentVault

/-- Nothing is compared as less than a least value. -/
theorem compare_ne_lt {α : Type} [Ord α] [LT α] [LE α] [Std.LawfulOrderOrd α]
    [Std.LawfulOrderLT α] {a b : α} (h : ¬ a < b) : compare a b ≠ .lt :=
  fun hlt => h (Std.compare_eq_lt.mp hlt)

/-- If neither part of a comparison is `lt`, the whole is not. -/
theorem then_ne_lt {o p : Ordering} (ho : o ≠ .lt) (hp : p ≠ .lt) : o.then p ≠ .lt := by
  cases o with
  | lt => exact absurd rfl ho
  | eq => exact hp
  | gt => exact fun h => by cases h

theorem FileId.compare_nil_ne_lt (stamp : Bytes) : compare stamp [] ≠ .lt := by
  cases stamp <;> exact fun h => by cases h

theorem StoreId.isRun_hash (hash : UInt32) :
    IsRun (⟨hash, 0⟩ : StoreId) fun id => id.hash == hash := by
  refine IsRun.of_leading (compareOn StoreId.hash) (compareOn StoreId.stamp)
    StoreId.compare_def ?_ ?_
  · intro id
    simp [compareOn]
  · intro id _
    exact compare_ne_lt (by simp)

theorem FileId.isRun_store (store : StoreId) :
    IsRun (⟨store, []⟩ : FileId) fun id => id.store == store := by
  refine IsRun.of_leading (compareOn FileId.store) (compareOn FileId.stamp) FileId.compare_def ?_ ?_
  · intro id
    simp [compareOn]
  · intro id _
    exact FileId.compare_nil_ne_lt id.stamp

namespace ChunkKey

/-- The chunks of one blob. -/
theorem isRun_store (store : StoreId) :
    IsRun (ChunkKey.first store 0) fun key => key.store == store := by
  refine IsRun.of_leading (compareOn ChunkKey.store)
    (compareLex (compareOn ChunkKey.writer) (compareOn ChunkKey.index)) compare_def ?_ ?_
  · intro key
    simp [compareOn, first]
  · intro key _
    exact then_ne_lt (compare_ne_lt (by simp [first])) (compare_ne_lt (by simp [first]))

/-- The chunks of one writer of a blob. -/
theorem isRun_writer (store : StoreId) (writer : UInt64) :
    IsRun (ChunkKey.first store writer) fun key => key.store == store && key.writer == writer := by
  refine IsRun.of_leading (compareLex (compareOn ChunkKey.store) (compareOn ChunkKey.writer))
    (compareOn ChunkKey.index) ?_ ?_ ?_
  · intro a b
    rw [compare_def, ← Ordering.then_assoc]
    rfl
  · intro key
    simp [compareOn, compareLex, first, Ordering.then_eq_eq]
  · intro key _
    exact compare_ne_lt (by simp [first])

/-- The chunks of all blobs of one checksum. -/
theorem isRun_hash (hash : UInt32) :
    IsRun (ChunkKey.first ⟨hash, 0⟩ 0) fun key => key.store.hash == hash := by
  refine IsRun.of_leading (compareOn fun key : ChunkKey => key.store.hash)
    (compareLex (compareOn fun key : ChunkKey => key.store.stamp)
      (compareLex (compareOn ChunkKey.writer) (compareOn ChunkKey.index))) ?_ ?_ ?_
  · intro a b
    rw [compare_def, StoreId.compare_def, Ordering.then_assoc]
    rfl
  · intro key
    simp [compareOn, first]
  · intro key _
    exact then_ne_lt (compare_ne_lt (by simp [first]))
      (then_ne_lt (compare_ne_lt (by simp [first])) (compare_ne_lt (by simp [first])))

end ChunkKey

end ContentVault
