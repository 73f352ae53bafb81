import ContentVault.Zstandard.Header
set_option autoImplicit false

/-!
# Buffers that are kept from frame to frame

A frame of several pieces is decoded with a buffer for a block of input and one for output.
They are kept for the next frame unless one is too small for it or both have been far too large
for many frames.
-/

namespace ContentVault.Zstandard

/-- The sizes of the buffers for input and output, the number of frames in a row for which they
were far too large, and what lies where literals are set aside. -/
structure Buffers where
  input : Nat := 0
  output : Nat := 0
  oversized : Nat := 0
  aside : Array UInt8 := #[]
  deriving DecidableEq, Repr, Inhabited

namespace Buffers

/-- Buffers are far too large if they are this many times as large as needed. -/
def wasteFactor : Nat := 3

/-- Buffers that were far too large for this many frames are given up. -/
def maxOversized : Nat := 128

/-- The smallest window that buffers are made for. -/
def minWindow : Nat := 1024

/-- The buffer size for blocks of input. -/
def neededInput (h : Header) : Nat := max h.blockLimit 4

/-- The buffer size for output: the window and two blocks, or the whole output if it is less. -/
def neededOutput (h : Header) : Nat :=
  let window := max h.window minWindow
  let all := window + 2 * h.blockLimit + 2 * copyMargin
  match h.contentSize? with
  | none => all
  | some size => min size all

/-- The buffers for a frame after those for the frame before. -/
def fit (b : Buffers) (h : Header) : Buffers :=
  let input := neededInput h
  let output := neededOutput h
  let areWasteful := wasteFactor * (input + output) ≤ b.input + b.output
  let oversized := if areWasteful then b.oversized + 1 else 0
  if b.input < input || b.output < output || maxOversized ≤ oversized then
    { b with input, output, oversized }
  else { b with oversized }

end Buffers

end ContentVault.Zstandard
