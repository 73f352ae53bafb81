import ContentVault.Bytes.Basic
set_option autoImplicit false

/-!
# Bit strings inside byte strings

Bits are numbered from the lowest bit of the first byte.  Table descriptions are
read forward.  Entropy-coded data is read backward: the highest set bit of the
last byte marks where the data ends, and reading past the front gives zeros, which
the caller notices because the number of bits left turns negative.
-/

namespace ContentVault.Zstandard

/-- Why a byte string is not a sequence of frames. -/
inductive Fault where
  | truncated
  | unknownFrame
  | reservedBit
  | windowTooLarge
  | dictionaryNeeded
  | badBlock
  | badTable
  | badLiterals
  | badSequences
  | wrongSize
  | wrongChecksum
  deriving DecidableEq, Repr, Inhabited

/-- The wording of a fault. -/
def Fault.message : Fault → String
  | .truncated => "incomplete frame"
  | .unknownFrame => "unknown frame descriptor"
  | .reservedBit => "unsupported parameter"
  | .windowTooLarge => "frame requires too much memory for decoding"
  | .dictionaryNeeded => "dictionary mismatch"
  | .badBlock => "corrupted block detected"
  | .badTable => "corrupted table detected"
  | .badLiterals => "corrupted literals detected"
  | .badSequences => "corrupted sequences detected"
  | .wrongSize => "frame size does not match its header"
  | .wrongChecksum => "restored data does not match checksum"

/-- The first `count` bytes and what follows them. -/
def takeBytes (count : Nat) (bs : Bytes) : Except Fault (Bytes × Bytes) :=
  let front := bs.take count
  if front.length = count then .ok (front, bs.drop count) else .error .truncated

theorem takeBytes_append (front rest : Bytes) :
    takeBytes front.length (front ++ rest) = .ok (front, rest) := by
  simp [takeBytes]

/-! ## Reading at a position -/

/-- The number that `count` bytes from index `first` on stand for, lowest byte first. -/
def gather (bytes : Array UInt8) (first : Nat) : Nat → Nat
  | 0 => 0
  | count + 1 => (bytes.getD first 0).toNat + 256 * gather bytes (first + 1) count

/-- The number that `count` bits from bit `low` on stand for, lowest bit first. -/
def bitsAt (bytes : Array UInt8) (low count : Nat) : Nat :=
  (gather bytes (low / 8) ((low % 8 + count + 7) / 8) >>> (low % 8)) % (1 <<< count)

/-! ## Reading backward -/

/-- A bit string read from its end; `left` bits are left, fewer than none if reading went past
the front. -/
structure Backward where
  bytes : Array UInt8
  left : Int
  deriving Inhabited

namespace Backward

/-- Finds the mark that ends the data. -/
def start (bytes : Array UInt8) : Except Fault Backward :=
  match bytes.back? with
  | none => .error .truncated
  | some last =>
    if last = 0 then .error .badBlock
    else .ok ⟨bytes, ((8 * (bytes.size - 1) + Nat.log2 last.toNat : Nat) : Int)⟩

/-- The next `count` bits, without taking them. -/
def peek (r : Backward) (count : Nat) : Nat :=
  let low := r.left - count
  if 0 ≤ low then bitsAt r.bytes low.toNat count
  else if r.left ≤ 0 then 0
  else bitsAt r.bytes 0 r.left.toNat <<< low.natAbs

/-- Takes `count` bits. -/
def skip (r : Backward) (count : Nat) : Backward := { r with left := r.left - count }

/-- Reads `count` bits. -/
def read (r : Backward) (count : Nat) : Nat × Backward := (r.peek count, r.skip count)

/-- Every bit was read and no more. -/
def isFinished (r : Backward) : Bool := r.left == 0

/-- Reading went past the front. -/
def isOverrun (r : Backward) : Bool := r.left < 0

end Backward

end ContentVault.Zstandard
