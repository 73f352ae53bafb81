import ContentVault.Time.Duration
set_option autoImplicit false

/-!
# Wall clocks

Leases are compared with a wall clock, in milliseconds.  A clock is the list of
readings it is going to give; the last one repeats.  So a clock that stands still
until it is set and one that moves between two looks are the same kind of thing.
-/

namespace ContentVault

/-- The readings of a wall clock, the next one first. -/
structure Clock where
  reading : UInt64
  later : List UInt64 := []
  deriving DecidableEq, Repr, Inhabited

namespace Clock

/-- A clock that stands at `now`. -/
def still (now : UInt64) : Clock := ⟨now, []⟩

/-- Looks at the clock. -/
def read (c : Clock) : UInt64 × Clock :=
  match c.later with
  | [] => (c.reading, c)
  | next :: later => (c.reading, ⟨next, later⟩)

/-- Moves every reading forward by whole milliseconds, wrapping around at 2^64. -/
def advance (c : Clock) (span : Duration) : Clock :=
  ⟨c.reading + span.millisWord, c.later.map (· + span.millisWord)⟩

@[simp] theorem read_still (now : UInt64) : (still now).read = (now, still now) := rfl

end Clock

/-- A state together with the clock that its leases are compared with. -/
structure Clocked (σ : Type) where
  state : σ
  clock : Clock

/-- The two wall clocks of a system: the machine's, and one that moves only when told to. -/
inductive ClockKind where
  | system
  | manual
  deriving DecidableEq, Repr, Inhabited

/-- The form shown in diagnostics of a clock standing at `now`. -/
def ClockKind.describe (now : UInt64) : ClockKind → String
  | .system => "SystemClock"
  | .manual => s!"ManualClock \x7b now_ms: {now.toNat} \x7d"

end ContentVault
