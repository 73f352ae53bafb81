import ContentVault.Time.Duration
set_option autoImplicit false

/-!
# Deadlines

A deadline is an instant of a steady clock after which an operation gives up.  It
is looked at between the phases of an operation; a phase that has started runs to
its end.
-/

namespace ContentVault

/-- A reading of the steady clock, in nanoseconds. -/
abbrev Instant := Nat

/-- The readings that the steady clock can represent end here. -/
def Instant.bound : Nat := 0x8000000000000000 * 1000000000

/-- The instant after which an operation must give up, if there is one. -/
structure Deadline where
  instant? : Option Instant
  deriving DecidableEq, Repr, Inhabited

namespace Deadline

/-- No deadline. -/
def never : Deadline := ⟨none⟩

/-- A deadline at a fixed instant. -/
def fixed (instant : Instant) : Deadline := ⟨some instant⟩

/-- A deadline `timeout` after `now`; one that lies beyond the clock's range never comes. -/
def after (now : Instant) (timeout : Duration) : Deadline :=
  let instant := now + timeout.nanos
  if instant < Instant.bound then .fixed instant else never

/-- The deadline has passed. -/
def isExpired (d : Deadline) (now : Instant) : Bool :=
  match d.instant? with
  | none => false
  | some instant => instant ≤ now

/-- The time left, or nothing if there is no deadline. -/
def remaining (d : Deadline) (now : Instant) : Option Duration :=
  d.instant?.map fun instant => ⟨instant - now⟩

@[simp] theorem isExpired_never (now : Instant) : never.isExpired now = false := rfl

@[simp] theorem isExpired_fixed (instant now : Instant) :
    (fixed instant).isExpired now = decide (instant ≤ now) := rfl

end Deadline

end ContentVault
