import ContentVault.Store.EncodedSize
set_option autoImplicit false

/-!
# Leases and reservations

Before a record is written its identifier is reserved: a lease names the owner by a
token and ends at a reading of the wall clock.  Nothing takes lapsed leases away; they
are noticed when the identifier is claimed or committed again.
-/

namespace ContentVault

/-- Ownership of an identifier until `expiresAt`, in milliseconds. -/
structure Lease where
  token : UInt64
  expiresAt : UInt64
  deriving DecidableEq, Repr, Inhabited

namespace Lease

/-- The lease has not lapsed. -/
def isLive (l : Lease) (now : UInt64) : Bool := now < l.expiresAt

/-- The lease is held under `token` and has not lapsed. -/
def isHeldBy (l : Lease) (token now : UInt64) : Bool := l.token == token && l.isLive now

/-- The end of a lease that is granted at `now` for `span` milliseconds, at most the last reading
of the clock. -/
def expiry (now span : UInt64) : UInt64 :=
  UInt64.ofNat (min (now.toNat + span.toNat) (UInt64.size - 1))

theorem toNat_expiry (now span : UInt64) :
    (expiry now span).toNat = min (now.toNat + span.toNat) (UInt64.size - 1) := by
  rw [expiry, UInt64.toNat_ofNat', UInt64.size]
  omega

end Lease

instance : EncodedSize Lease := ⟨fun l => encodedSize l.token + encodedSize l.expiresAt⟩

/-- What the holder of a lease shows to commit or release an identifier. -/
structure Reservation (κ : Type) where
  id : κ
  lease : Lease
  deriving DecidableEq, Repr, Inhabited

/-- Identifiers under which records are kept. -/
class Identifier (κ : Type) where
  /-- What the identifiers name, in messages. -/
  kind : String
  /-- The printable token. -/
  token : κ → String

instance : Identifier StoreId := ⟨"file store", StoreId.token⟩
instance : Identifier FileId := ⟨"file", FileId.token⟩

/-- The error that nothing is committed under an identifier. -/
def Identifier.absent {κ : Type} [Identifier κ] (id : κ) : StoreError :=
  .notFound (Identifier.kind κ) (Identifier.token id)

/-- The error of a commit whose reservation does not hold. -/
def Reservation.notReserved {κ : Type} [Identifier κ] (r : Reservation κ) : StoreError :=
  .idNotReserved (Identifier.token r.id)

/-- The error of a commit of a record under another identifier. -/
def Reservation.mismatch {κ : Type} [Identifier κ] (r : Reservation κ) (payload : κ) : StoreError :=
  .idMismatch (Identifier.token r.id) (Identifier.token payload)

end ContentVault
