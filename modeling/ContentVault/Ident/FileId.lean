import ContentVault.Ident.StoreId
set_option autoImplicit false

/-!
# File identifiers

A file names the blob that holds its bytes, and adds a stamp of any length that
tells it apart from the other files over that blob.  A collision lengthens the
stamp by one byte.
-/

namespace ContentVault

/-- The identifier of a file over a stored blob. -/
structure FileId where
  store : StoreId
  stamp : Bytes
  deriving DecidableEq, Repr, Inhabited

namespace FileId

/-! ## Order -/

instance : Ord FileId := ⟨compareLex (compareOn store) (compareOn stamp)⟩

instance : Std.TransOrd FileId :=
  inferInstanceAs (Std.TransCmp (compareLex (compareOn store) (compareOn stamp)))

theorem compare_def (a b : FileId) :
    compare a b = (compare a.store b.store).then (compare a.stamp b.stamp) := rfl

instance : Std.LawfulEqOrd FileId where
  compare_self := by
    intro a
    simp
  eq_of_compare := by
    intro a b h
    rw [compare_def, Ordering.then_eq_eq] at h
    cases a; cases b
    simp only [mk.injEq]
    exact ⟨Std.LawfulEqCmp.eq_of_compare h.1, Std.LawfulEqCmp.eq_of_compare h.2⟩

/-! ## Candidates -/

/-- A first candidate over `store`, with a stamp of one byte. -/
def first (store : StoreId) (byte : UInt8) : FileId := ⟨store, [byte]⟩

/-- The candidate after a collision: one more stamp byte. -/
def extend (id : FileId) (byte : UInt8) : FileId := { id with stamp := id.stamp ++ [byte] }

/-! ## Encodings -/

/-- The store's bytes, then the stamp. -/
def toBytes (id : FileId) : Bytes := id.store.toBytes ++ id.stamp

/-- The printable token. -/
def token (id : FileId) : String := Hex.encode id.toBytes

/-- Reads a token; a file needs at least one stamp byte. -/
def ofToken (token : String) : Except IdentError FileId :=
  match Hex.decode token with
  | .error fault => .error (.invalidHex fault.message)
  | .ok bs =>
    match StoreId.ofBytes bs with
    | .error e => .error e
    | .ok store =>
      if bs.length = StoreId.byteLength then .error .emptyStamp
      else .ok ⟨store, bs.drop StoreId.byteLength⟩

/-- The form shown in diagnostics. -/
def describe (id : FileId) : String := s!"FileId({id.token})"

end FileId

end ContentVault
