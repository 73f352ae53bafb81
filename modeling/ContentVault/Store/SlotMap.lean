import ContentVault.OrderedMap
import ContentVault.Store.Lease
set_option autoImplicit false

/-!
# Slots

An identifier is free, reserved under a lease, or committed with a record.  A claim
takes a free slot or one whose lease has lapsed; a commit needs the live lease; a
release gives up a lease, lapsed or not.  A committed slot stays committed.
-/

namespace ContentVault

/-- A slot that is not free. -/
inductive Slot (ρ : Type) where
  | reserved (lease : Lease)
  | committed (record : ρ)
  deriving DecidableEq, Repr

namespace Slot

variable {ρ : Type}

/-- The slot holds a lapsed lease. -/
def isClaimable (now : UInt64) : Slot ρ → Bool
  | .reserved lease => !lease.isLive now
  | .committed _ => false

/-- The slot holds a live lease of `token`. -/
def isHeldBy (token now : UInt64) : Slot ρ → Bool
  | .reserved lease => lease.isHeldBy token now
  | .committed _ => false

/-- The slot holds a lease of `token`, live or not. -/
def isLeasedTo (token : UInt64) : Slot ρ → Bool
  | .reserved lease => lease.token == token
  | .committed _ => false

/-- The record of a committed slot. -/
def record? : Slot ρ → Option ρ
  | .reserved _ => none
  | .committed record => some record

end Slot

/-- The slots of one kind of identifier; those not listed are free. -/
abbrev SlotMap (κ ρ : Type) [Ord κ] := OrderedMap κ (Slot ρ)

namespace SlotMap

variable {κ ρ : Type} [Ord κ] [Std.TransOrd κ]

/-- Claims an identifier; tells whether it was claimable. -/
def claim (m : SlotMap κ ρ) (id : κ) (lease : Lease) (now : UInt64) : Bool × SlotMap κ ρ :=
  if (m.get? id).all (·.isClaimable now) then (true, m.insert id (.reserved lease))
  else (false, m)

/-- Commits a record under a live lease. -/
def commit [Identifier κ] (m : SlotMap κ ρ) (r : Reservation κ) (record : ρ) (now : UInt64) :
    Except StoreError Unit × SlotMap κ ρ :=
  if (m.get? r.id).any (·.isHeldBy r.lease.token now) then
    (.ok (), m.insert r.id (.committed record))
  else (.error r.notReserved, m)

/-- Gives up a lease; tells whether it was held. -/
def release (m : SlotMap κ ρ) (r : Reservation κ) : Bool × SlotMap κ ρ :=
  if (m.get? r.id).any (·.isLeasedTo r.lease.token) then (true, m.erase r.id) else (false, m)

/-- The record committed under an identifier. -/
def record? (m : SlotMap κ ρ) (id : κ) : Option ρ := (m.get? id).bind Slot.record?

omit [Std.TransOrd κ] in
theorem record?_of_get? {m : SlotMap κ ρ} {id : κ} {slot : Slot ρ} (h : m.get? id = some slot) :
    m.record? id = slot.record? :=
  congrArg (Option.bind · Slot.record?) h

omit [Std.TransOrd κ] in
theorem record?_of_free {m : SlotMap κ ρ} {id : κ} (h : m.get? id = none) : m.record? id = none :=
  congrArg (Option.bind · Slot.record?) h

/-- Puts another record in the place of a committed one; tells whether there was one. -/
def replace (m : SlotMap κ ρ) (id : κ) (change : ρ → ρ) : Bool × SlotMap κ ρ :=
  match m.record? id with
  | none => (false, m)
  | some record => (true, m.insert id (.committed (change record)))

/-- Takes a committed record away; tells whether there was one. -/
def remove (m : SlotMap κ ρ) (id : κ) : Bool × SlotMap κ ρ :=
  match m.record? id with
  | none => (false, m)
  | some _ => (true, m.erase id)

/-- The committed records whose identifiers `p` accepts, in key order. -/
def recordsWhere (m : SlotMap κ ρ) (p : κ → Bool) : List ρ :=
  m.entries.filterMap fun (id, slot) => if p id then slot.record? else none

/-- All committed records. -/
def records (m : SlotMap κ ρ) : List ρ := m.recordsWhere fun _ => true

end SlotMap

end ContentVault
