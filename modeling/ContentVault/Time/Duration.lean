import ContentVault.Text.Decimal
set_option autoImplicit false

/-!
# Spans of time

Spans count whole nanoseconds.  In diagnostics a span is shown in the largest
unit of which it holds at least one, with as many decimals as it needs.
-/

namespace ContentVault

/-- A span of time. -/
structure Duration where
  nanos : Nat
  deriving DecidableEq, Repr, Inhabited

namespace Duration

/-- No time at all. -/
def zero : Duration := ⟨0⟩

def ofSecs (n : Nat) : Duration := ⟨n * 1000000000⟩
def ofMillis (n : Nat) : Duration := ⟨n * 1000000⟩
def ofMicros (n : Nat) : Duration := ⟨n * 1000⟩

/-- Whole milliseconds. -/
def millis (d : Duration) : Nat := d.nanos / 1000000

/-- Whole milliseconds as a 64-bit word; higher bits are lost. -/
def millisWord (d : Duration) : UInt64 := UInt64.ofNat d.millis

/-- Whole microseconds as a 64-bit word; higher bits are lost. -/
def microsWord (d : Duration) : UInt64 := UInt64.ofNat (d.nanos / 1000)

/-- The shorter of two spans. -/
def min (a b : Duration) : Duration := ⟨Nat.min a.nanos b.nanos⟩

/-- A span taken `n` times. -/
def times (d : Duration) (n : Nat) : Duration := ⟨d.nanos * n⟩

/-- The decimals of `part` units of the `places`-th decimal place, without zeros at the end. -/
def decimals (places part : Nat) : String :=
  let digits := Decimal.digits part
  let padded := List.replicate (places - digits.length) '0' ++ digits
  let kept := (padded.reverse.dropWhile (· = '0')).reverse
  if kept.isEmpty then "" else "." ++ String.ofList kept

/-- The form shown in diagnostics. -/
def describe (d : Duration) : String :=
  let inUnit (size places : Nat) (unit : String) : String :=
    Decimal.text (d.nanos / size) ++ decimals places (d.nanos % size) ++ unit
  if 1000000000 ≤ d.nanos then inUnit 1000000000 9 "s"
  else if 1000000 ≤ d.nanos then inUnit 1000000 6 "ms"
  else if 1000 ≤ d.nanos then inUnit 1000 3 "µs"
  else inUnit 1 0 "ns"

theorem millis_ofSecs (n : Nat) : (ofSecs n).millis = 1000 * n := by
  simp only [millis, ofSecs]
  omega

end Duration

end ContentVault
