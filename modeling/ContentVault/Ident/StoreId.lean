import ContentVault.Bytes.Hex
import ContentVault.Ident.Error
set_option autoImplicit false

/-!
# Store identifiers

A stored blob is addressed by the checksum of its uncompressed bytes and a stamp
that tells apart different blobs of one checksum.  Identifiers are ordered by
checksum first; their token is the hexadecimal form of six little-endian bytes.
-/

namespace ContentVault

/-- The address of one stored blob. -/
structure StoreId where
  hash : UInt32
  stamp : UInt16
  deriving DecidableEq, Repr, Inhabited

namespace StoreId

/-! ## Order -/

instance : Ord StoreId := ⟨compareLex (compareOn hash) (compareOn stamp)⟩

instance : Std.TransOrd StoreId :=
  inferInstanceAs (Std.TransCmp (compareLex (compareOn hash) (compareOn stamp)))

theorem compare_def (a b : StoreId) :
    compare a b = (compare a.hash b.hash).then (compare a.stamp b.stamp) := rfl

instance : Std.LawfulEqOrd StoreId where
  compare_self := by
    intro a
    simp
  eq_of_compare := by
    intro a b h
    rw [compare_def, Ordering.then_eq_eq] at h
    cases a; cases b
    simp only [mk.injEq]
    exact ⟨Std.LawfulEqCmp.eq_of_compare h.1, Std.LawfulEqCmp.eq_of_compare h.2⟩

/-! ## Candidates after a collision -/

/-- The next candidate of the same checksum; stamps wrap around. -/
def next (id : StoreId) : StoreId := { id with stamp := id.stamp + 1 }

/-! ## Encodings -/

/-- Number of bytes of an encoded identifier: four of checksum, two of stamp. -/
def byteLength : Nat := 6

/-- The identifier as one number, the stamp above the checksum. -/
def toNum (id : StoreId) : Nat := id.stamp.toNat * UInt32.size + id.hash.toNat

/-- The little-endian bytes: checksum, then stamp. -/
def toBytes (id : StoreId) : Bytes :=
  Bytes.littleEndian 4 id.hash.toNat ++ Bytes.littleEndian 2 id.stamp.toNat

@[simp] theorem length_toBytes (id : StoreId) : id.toBytes.length = byteLength := by
  simp [toBytes, byteLength]

/-- The identifier that six bytes stand for. -/
def ofWords (bs : Bytes) : StoreId :=
  ⟨UInt32.ofNat (Bytes.ofLittleEndian (bs.take 4)),
    UInt16.ofNat (Bytes.ofLittleEndian ((bs.drop 4).take 2))⟩

/-- Reads the first six bytes. -/
def ofBytes (bs : Bytes) : Except IdentError StoreId :=
  if bs.length < byteLength then .error (.invalidLength byteLength bs.length)
  else .ok (ofWords bs)

theorem ofWords_toBytes_append (id : StoreId) (rest : Bytes) :
    ofWords (id.toBytes ++ rest) = id := by
  have hh : id.hash.toNat < 2 ^ 32 := id.hash.toNat_lt
  have hs : id.stamp.toNat < 2 ^ 16 := id.stamp.toNat_lt
  have htake : (id.toBytes ++ rest).take 4 = Bytes.littleEndian 4 id.hash.toNat := by
    simp [toBytes, List.append_assoc]
  have hdrop : ((id.toBytes ++ rest).drop 4).take 2 = Bytes.littleEndian 2 id.stamp.toNat := by
    simp [toBytes, List.append_assoc]
  rw [ofWords, htake, hdrop, Bytes.ofLittleEndian_littleEndian,
    Bytes.ofLittleEndian_littleEndian, Nat.mod_eq_of_lt (by omega), Nat.mod_eq_of_lt (by omega)]
  simp

/-- The printable token: twelve hexadecimal digits. -/
def token (id : StoreId) : String := Hex.encode id.toBytes

/-- Reads a token. -/
def ofToken (token : String) : Except IdentError StoreId :=
  match Hex.decode token with
  | .error fault => .error (.invalidHex fault.message)
  | .ok bs =>
    if bs.length ≠ byteLength then .error (.invalidLength byteLength bs.length) else ofBytes bs

/-- The form shown in diagnostics: checksum in eight digits, stamp in decimal. -/
def describe (id : StoreId) : String :=
  s!"StoreId({String.ofList (Text.hexPadded 8 id.hash.toNat)}/{id.stamp.toNat})"

end StoreId

end ContentVault
