import ContentVault.Bytes.XxHash
import ContentVault.Zstandard.Block
import ContentVault.Zstandard.Buffers
set_option autoImplicit false

/-!
# Frames

A frame is a header, blocks of at most 128 KiB of output, the last of which is marked, and a
checksum if the header says so.  Some frames carry no data and are passed over.
-/

namespace ContentVault.Zstandard

/-- The largest window that is kept while a frame is decoded piece by piece. -/
def maxWindow : Nat := 134217729

/-- The largest window that a header may name. -/
def maxNamedWindow : Nat := UInt32.size - 1

/-- Checks the output of a frame against the size and the checksum that go with it.  The size is
not compared where a frame of several pieces ends with a block without contents. -/
def checkFrame (f : Frame) (last : BlockHeader) (out : Bytes) (input : Input) :
    Except Fault Input :=
  if (f.isOnePiece || last.contents ≠ 0) && f.contentSize?.any (· ≠ out.length) then
    .error .wrongSize
  else if f.hasChecksum then
    match input.takeNumber 4 with
    | .error fault => .error fault
    | .ok (sum, input) =>
      if sum = (XxHash.hash out).toNat % UInt32.size then .ok input else .error .wrongChecksum
  else .ok input

/-- A frame with the given header is decoded at once if its output is one piece and it does not
go on in another piece of input. -/
def Header.isOnePiece (h : Header) (start input : Input) : Bool :=
  h.contentSize?.any (· ≤ outputPiece) &&
    match h.passFrame input with
    | .error _ => false
    | .ok stop => start.isWithinPiece stop

/-- Decodes the frame that starts at `start`; its first number is taken already. -/
def decodeFrame (b : Buffers) (start input : Input) : Except Fault (Bytes × Buffers × Input) := do
  let (h, input) ← Header.read input
  let isOnePiece := h.isOnePiece start input
  if (if isOnePiece then maxNamedWindow else maxWindow) < h.window then .error .windowTooLarge
  else
    let b := if isOnePiece then b else b.fit h
    let capacity := if isOnePiece then outputPiece else b.output
    let wraps := !isOnePiece && h.contentSize?.all (b.output < ·)
    let f : Frame := ⟨h, isOnePiece, wraps⟩
    let (s, last, input) ← decodeBlocks f (input.rest.length + 1) input (.initial capacity b.aside)
    let out := s.window.output.toList
    let input ← checkFrame f last out input
    .ok (out, { b with aside := s.aside }, input)

/-- Passes over a frame without data; its first number is taken already. -/
def skipFrame (b : Buffers) (input : Input) : Except Fault (Buffers × Input) := do
  let (size, input) ← input.takeNumber 4
  let (_, input) ← input.take size
  .ok (b.fit ⟨0, some size, false⟩, input)

end ContentVault.Zstandard
