import ContentVault.Zstandard.Header
set_option autoImplicit false

/-!
# Older formats of frames

Data may hold frames of four formats that came before the current one.  Their frames have no
size that is checked, and they are always decoded piece by piece.  The number that starts a frame
tells its format.
-/

namespace ContentVault.Zstandard.Older

/-- The older formats, from the oldest to the latest. -/
inductive Format where
  | four
  | five
  | six
  | seven
  deriving DecidableEq, Repr, Inhabited

/-- The format of the frames that start with a number. -/
def Format.ofStart? (start : Nat) : Option Format :=
  if start = 0xFD2FB524 then some .four
  else if start = 0xFD2FB525 then some .five
  else if start = 0xFD2FB526 then some .six
  else if start = 0xFD2FB527 then some .seven
  else none

namespace Format

/-- The states that weights are coded with end at zero. -/
def endsAtZero (f : Format) : Bool := f = .four || f = .five

/-- The longest code that a Huffman table with one byte at a place may have. -/
def maxSingleDepth (f : Format) : Nat := if f = .seven then 13 else 12

/-- Coded literals may be as long as the literals, and are the literals then. -/
def keepsUncoded (f : Format) : Bool := f = .four || f = .six

/-- Coded literals may be one byte, which is repeated. -/
def repeatsOne (f : Format) : Bool := f != .seven

/-- The shortest stretch of earlier output that is copied. -/
def minMatch (f : Format) : Nat := if f = .four || f = .five then 4 else 3

end Format

/-- What a frame's header says. -/
structure Header where
  format : Format
  window : Nat
  hasChecksum : Bool := false
  deriving DecidableEq, Repr, Inhabited

namespace Header

/-- The largest window that a header may name. -/
def maxWindow : Nat := 1 <<< 27

/-- The smallest window that is kept. -/
def minWindow : Nat := 1 <<< 10

/-- Reads the header of the latest older format. -/
def readSeven (s : Input) : Except Fault (Header × Input) := do
  let (d, s) ← s.takeNumber 1
  let single := d / 32 % 2 = 1
  if d / 8 % 2 = 1 then .error .reservedBit
  else
    let (named, s) ← s.take (if single then 0 else 1)
    let (dictionary, s) ← s.takeNumber ((1 <<< (d % 4)) / 2)
    let width := Zstandard.Header.contentSizeWidth (d / 64) single
    let (size, s) ← s.takeNumber width
    let window :=
      match named with
      | [] => (size + (if width = 2 then 256 else 0)) % UInt32.size
      | b :: _ => Zstandard.Header.windowSize b
    if maxWindow < window then .error .windowTooLarge
    else if dictionary ≠ 0 then .error .dictionaryNeeded
    else .ok ({ format := .seven, window := max window minWindow, hasChecksum := d / 4 % 2 = 1 }, s)

/-- Reads a header after the number that starts the frame. -/
def read (format : Format) (s : Input) : Except Fault (Header × Input) := do
  match format with
  | .seven => readSeven s
  | .six =>
    let (d, s) ← s.takeNumber 1
    let (_, s) ← s.take (if d / 64 = 3 then 8 else d / 64)
    if d / 32 % 2 = 1 then .error .reservedBit
    else .ok ({ format, window := 1 <<< (12 + d % 16) }, s)
  | _ =>
    let (d, s) ← s.takeNumber 1
    if 15 < d then .error .reservedBit else .ok ({ format, window := 1 <<< (11 + d) }, s)

/-- A new lap of the buffer starts if it has no room for a block of this size. -/
def margin (h : Header) : Nat :=
  match h.format with
  | .four => maxBlockSize
  | .five => maxBlockSize
  | _ => min h.window maxBlockSize

/-- The size of the buffer for output. -/
def neededOutput (h : Header) : Nat :=
  match h.format with
  | .four => h.window
  | .five => h.window
  | _ => h.window + h.margin + 16

end Header

/-! ## Blocks -/

/-- The number that bytes stand for, highest byte first. -/
def bigEndian (bs : Bytes) : Nat := bs.foldl (fun n b => 256 * n + b.toNat) 0

/-- A block: its kind, its size, and the part of a checksum in the place of a size. -/
structure BlockHeader where
  kind : Nat
  size : Nat
  sum : Nat
  deriving DecidableEq, Repr, Inhabited

namespace BlockHeader

/-- The block header that a number of three bytes stands for. -/
def ofNat (n : Nat) : BlockHeader := ⟨n / (1 <<< 22), n % (1 <<< 19), n % (1 <<< 22)⟩

/-- Reads a block header. -/
def read (s : Input) : Except Fault (BlockHeader × Input) :=
  match s.take 3 with
  | .error fault => .error fault
  | .ok (front, s) => .ok (ofNat (bigEndian front), s)

/-- The block ends the frame: it is of the kind for that, or another one without contents. -/
def isEnd (h : BlockHeader) : Bool := h.kind = 3 || h.size = 0 && h.kind < 2

end BlockHeader

end ContentVault.Zstandard.Older
