import ContentVault.Zstandard.Input
import ContentVault.Zstandard.Literals
set_option autoImplicit false

/-!
# The headers of frames and blocks

A frame starts with a header that names its window, and maybe the size of its output.  Then
come blocks, each with a header of three bytes.
-/

namespace ContentVault.Zstandard

/-- The number that starts a frame. -/
def magic : Nat := 0xFD2FB528

/-- What a frame's header says. -/
structure Header where
  window : Nat
  contentSize? : Option Nat
  hasChecksum : Bool
  deriving DecidableEq, Repr, Inhabited

namespace Header

/-- The most that a block of the frame may regenerate. -/
def blockLimit (h : Header) : Nat := min h.window maxBlockSize

/-- Number of bytes of the content size. -/
def contentSizeWidth (flag : Nat) (single : Bool) : Nat :=
  if flag = 0 then (if single then 1 else 0) else 1 <<< flag

/-- The window size that a byte stands for. -/
def windowSize (b : UInt8) : Nat :=
  let base := 1 <<< (10 + b.toNat / 8)
  base + base / 8 * (b.toNat % 8)

/-- Reads a header after the number that starts the frame. -/
def read (s : Input) : Except Fault (Header × Input) := do
  let (d, s) ← s.takeNumber 1
  let single := d / 32 % 2 = 1
  if d / 8 % 2 = 1 then .error .reservedBit
  else
    let (window, s) ← s.take (if single then 0 else 1)
    let (dictionary, s) ← s.takeNumber ((1 <<< (d % 4)) / 2)
    let width := contentSizeWidth (d / 64) single
    let (size, s) ← s.takeNumber width
    let contentSize? := if width = 0 then none else some (size + (if width = 2 then 256 else 0))
    let window :=
      match window with
      | [] => contentSize?.getD 0
      | b :: _ => windowSize b
    if dictionary ≠ 0 then .error .dictionaryNeeded
    else .ok (⟨window, contentSize?, d / 4 % 2 = 1⟩, s)

end Header

/-- A block: whether it is the last, its kind, and its size. -/
structure BlockHeader where
  isLast : Bool
  kind : Nat
  size : Nat
  deriving DecidableEq, Repr, Inhabited

namespace BlockHeader

/-- The three bytes of a block header. -/
def toBytes (h : BlockHeader) : Bytes :=
  Bytes.littleEndian 3 ((if h.isLast then 1 else 0) + 2 * h.kind + 8 * h.size)

/-- The block header that a number of three bytes stands for. -/
def ofNat (n : Nat) : BlockHeader := ⟨n % 2 = 1, n / 2 % 4, n / 8⟩

/-- How many bytes of contents follow; a repeated byte is there even if it is repeated no times. -/
def contents (h : BlockHeader) : Nat := if h.kind = 1 then 1 else h.size

/-- Reads a block header. -/
def read (s : Input) : Except Fault (BlockHeader × Input) :=
  match s.takeNumber 3 with
  | .error fault => .error fault
  | .ok (n, s) => .ok (ofNat n, s)

/-- Passes over the blocks up to the last one, at most `fuel` of them. -/
def passAll : Nat → Input → Except Fault Input
  | 0, _ => .error .truncated
  | fuel + 1, s =>
    match read s with
    | .error fault => .error fault
    | .ok (h, s) =>
      if 2 < h.kind then .error .badBlock
      else
        match s.take h.contents with
        | .error fault => .error fault
        | .ok (_, s) => if h.isLast then .ok s else passAll fuel s

end BlockHeader

/-- Passes over the blocks and the checksum of a frame. -/
def Header.passFrame (h : Header) (s : Input) : Except Fault Input :=
  match BlockHeader.passAll (s.rest.length + 1) s with
  | .error fault => .error fault
  | .ok s =>
    match s.take (if h.hasChecksum then 4 else 0) with
    | .error fault => .error fault
    | .ok (_, s) => .ok s

end ContentVault.Zstandard
