import ContentVault.Zstandard.Bits
set_option autoImplicit false

/-!
# Reading backward through a word

Some bit strings are read through a word of eight bytes that slides toward the front of the
data.  Bits are taken from the top of the word, and the word slides only when it is told to.
Nothing is refused here: once more than 64 bits are taken from a word, its bits come round
again, and a bit string that should end with the last bit taken is checked for that afterwards.
-/

namespace ContentVault.Zstandard

/-- The bits of a word. -/
def wordBits : Nat := 64

/-- The word that the bytes from index `first` up to `last` stand for, lowest byte first. -/
def wordOf (bytes : Array UInt8) (first last : Nat) : UInt64 :=
  bytes.foldr (fun b word => word <<< 8 ||| b.toUInt64) 0 last first

/-- A bit string that is read backward through a word. -/
structure WordReader where
  bytes : Array UInt8
  /-- The index of the byte in front, beyond which the word does not slide. -/
  low : Nat
  /-- The index of the lowest byte of the word. -/
  place : Nat
  word : UInt64
  /-- How many bits are taken from the word. -/
  used : Nat
  deriving Inhabited

/-- What sliding the word has led to. -/
inductive Refill where
  /-- The word slid; there may be more bits in front of it. -/
  | more
  /-- The word is at the front and has bits left. -/
  | front
  /-- The word is at the front and all its bits are taken. -/
  | ended
  /-- More bits were taken than the word has. -/
  | overrun
  deriving DecidableEq, Repr

namespace WordReader

/-- The number of bits from the top of the last byte through the mark that ends the data. -/
def padding (last : UInt8) : Nat := 8 - Nat.log2 last.toNat

/-- Finds the mark that ends the data, which are the bytes from index `low` up to `high`. -/
def start (bytes : Array UInt8) (low high : Nat) : Except Fault WordReader :=
  let last := bytes.getD (high - 1) 0
  if high ≤ low then .error .truncated
  else if last = 0 then .error .badBlock
  else if low + 8 ≤ high then
    .ok ⟨bytes, low, high - 8, wordOf bytes (high - 8) high, padding last⟩
  else .ok ⟨bytes, low, low, wordOf bytes low high, padding last + 8 * (low + 8 - high)⟩

/-- The next `count` bits, at most 63, without taking them. -/
def peek (r : WordReader) (count : Nat) : Nat :=
  ((r.word <<< UInt64.ofNat r.used) >>> 1 >>> UInt64.ofNat (63 - count)).toNat

/-- Takes `count` bits. -/
def skip (r : WordReader) (count : Nat) : WordReader := { r with used := r.used + count }

/-- Reads `count` bits. -/
def read (r : WordReader) (count : Nat) : Nat × WordReader := (r.peek count, r.skip count)

/-- Slides the word by `count` bytes. -/
def slide (r : WordReader) (count : Nat) : WordReader :=
  let place := r.place - count
  { r with place, word := wordOf r.bytes place (place + 8), used := r.used - 8 * count }

/-- Slides the word past the bytes that are taken, but not beyond the front. -/
def refill (r : WordReader) : Refill × WordReader :=
  let taken := r.used / 8
  if wordBits < r.used then (.overrun, r)
  else if r.low + 8 ≤ r.place then (.more, r.slide taken)
  else if r.place = r.low then (if r.used < wordBits then .front else .ended, r)
  else if r.place < r.low + taken then (.front, r.slide (r.place - r.low))
  else (.more, r.slide taken)

/-- Every bit was read and no more. -/
def isFinished (r : WordReader) : Bool := r.place == r.low && r.used == wordBits

end WordReader

end ContentVault.Zstandard
