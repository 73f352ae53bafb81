import ContentVault.Vault.Request
set_option autoImplicit false

/-!
# Reserving an identifier

A reserver claims a candidate, and when it is taken the next candidate, until a claim
succeeds, the attempts are used up or the deadline passes.  From the second collision on
it pauses before the next attempt, longer and longer up to a limit.
-/

namespace ContentVault

/-- How identifiers are reserved. -/
structure ReservationPolicy where
  /-- How long a lease lasts. -/
  ttl : Duration
  maxAttempts : UInt32
  /-- The first pause. -/
  backoffBase : Duration
  /-- The longest pause. -/
  backoffMax : Duration
  deriving DecidableEq, Repr

namespace ReservationPolicy

/-- Leases of a day, 1024 attempts, and pauses of 200 µs to 20 ms. -/
def standard : ReservationPolicy := ⟨.ofSecs 86400, 1024, .ofMicros 200, .ofMillis 20⟩

instance : Inhabited ReservationPolicy := ⟨standard⟩

/-- The form shown in diagnostics. -/
def describe (p : ReservationPolicy) : String :=
  s!"ReservationPolicy \x7b ttl: {p.ttl.describe}, max_attempts: {p.maxAttempts.toNat}, "
    ++ s!"backoff_base: {p.backoffBase.describe}, backoff_max: {p.backoffMax.describe} \x7d"

/-- The longest pause after the collision number `attempt`, counted from zero; it doubles up to
sixteen times. -/
def ceiling (p : ReservationPolicy) (attempt : Nat) : Duration :=
  (p.backoffBase.times (1 <<< Nat.min (attempt - 1) 16)).min p.backoffMax

/-- The ceiling in microseconds, of which 64 bits are kept. -/
def ceilingMicros (p : ReservationPolicy) (attempt : Nat) : UInt64 := (p.ceiling attempt).microsWord

/-- Pauses for at least half of the ceiling; the first collision has no pause. -/
def backoff (p : ReservationPolicy) (attempt : Nat) : Procedure Unit :=
  if attempt = 0 then .done ()
  else if p.ceilingMicros attempt = 0 then ask (.pause .zero)
  else do
    let micros := p.ceilingMicros attempt
    ask (.pause (.ofMicros (← ask (.jitter (micros / 2).toNat micros.toNat))))

end ReservationPolicy

/-- Identifiers that can be reserved, with records of type `ρ`. -/
class Reservable (κ : Type) (ρ : outParam Type) extends Identifier κ where
  /-- The candidate after a collision. -/
  next : κ → Procedure κ
  /-- Claims an identifier. -/
  claim : κ → Lease → UInt64 → Procedure (Except StoreError Bool)
  /-- Commits a record. -/
  commit : ClockKind → Reservation κ → ρ → Procedure (Except StoreError Unit)
  /-- Gives up a lease. -/
  release : Reservation κ → Procedure (Except StoreError Bool)

instance : Reservable StoreId ContentRecord where
  next id := .done id.next
  claim id lease now := ask (.claimStore id lease now)
  commit clock r record := ask (.commitStore clock r record)
  release r := ask (.releaseStore r)

instance : Reservable FileId FileRecord where
  next id := do return id.extend (← ask .stampByte)
  claim id lease now := ask (.claimFile id lease now)
  commit clock r record := ask (.commitFile clock r record)
  release r := ask (.releaseFile r)

/-- A policy and the wall clock that leases are measured by. -/
structure Reserver where
  policy : ReservationPolicy
  clock : ClockKind
  deriving DecidableEq, Repr, Inhabited

namespace Reserver

variable {κ ρ : Type} [Reservable κ ρ]

/-- The form shown in diagnostics while the manual clock stands at `now`. -/
def describe (r : Reserver) (now : UInt64) : String :=
  s!"Reserver \x7b policy: {r.policy.describe}, clock: {r.clock.describe now} \x7d"

/-- The error when all attempts have failed. -/
def exhausted (r : Reserver) (candidate : κ) : StoreError :=
  .reservationExhausted (Identifier.token candidate) r.policy.maxAttempts.toNat

/-- Claims `id` under a fresh lease. -/
def attempt (r : Reserver) (id : κ) : Procedure (Except StoreError (Option (Reservation κ))) := do
  let now ← ask (.readClock r.clock)
  let token ← ask .leaseToken
  let lease : Lease := ⟨token, Lease.expiry now r.policy.ttl.millisWord⟩
  return match ← Reservable.claim id lease now with
    | .error e => .error e
    | .ok true => .ok (some ⟨id, lease⟩)
    | .ok false => .ok none

/-- Makes the attempts that remain, the next of which is at `id` and has the number `count`. -/
def attempts (r : Reserver) (candidate : κ) (deadline : Deadline) :
    (remaining count : Nat) → κ → Procedure (Except StoreError (Reservation κ))
  | 0, _, _ => .done (.error (r.exhausted candidate))
  | remaining + 1, count, id => do
    if ← deadline.passed then return .error .timeout
    else
      match ← r.attempt id with
      | .error e => return .error e
      | .ok (some reservation) => return .ok reservation
      | .ok none =>
        let id ← Reservable.next id
        r.policy.backoff count
        r.attempts candidate deadline remaining (count + 1) id

/-- Reserves the candidate or the first one after it that is free. -/
def reserve (r : Reserver) (candidate : κ) (deadline : Deadline) :
    Procedure (Except StoreError (Reservation κ)) :=
  r.attempts candidate deadline r.policy.maxAttempts.toNat 0 candidate

/-- Commits a record under a reservation. -/
def commit (r : Reserver) (reservation : Reservation κ) (record : ρ) :
    Procedure (Except StoreError Unit) :=
  Reservable.commit r.clock reservation record

/-- Gives a reservation up. -/
def release (reservation : Reservation κ) : Procedure (Except StoreError Bool) :=
  Reservable.release reservation

end Reserver

end ContentVault
