import ContentVault.Zstandard.Header
set_option autoImplicit false

/-!
# Writing frames

The encoder cuts the data into blocks of 128 KiB, writes a block of equal bytes as
that byte and a count, and stores every other block as it is.  The frame names a
window of 128 KiB and leaves out the size of the data, so data of any length has a
frame, the empty one too.
-/

namespace ContentVault.Zstandard

/-- The start of every frame that is written: no checksum, no content size, a window of
128 KiB. -/
def frameStart : Bytes := Bytes.littleEndian 4 magic ++ [0, 56]

/-- The byte that a block consists of, if it consists of one. -/
def repeated? : Bytes → Option UInt8
  | [] => none
  | b :: bs => if bs.all (· == b) then some b else none

/-- One block of at most 128 KiB; from level one on, blocks of equal bytes are written short. -/
def encodeBlock (level : Int) (isLast : Bool) (data : Bytes) : Bytes :=
  match if 1 ≤ level then repeated? data else none with
  | some b => BlockHeader.toBytes ⟨isLast, 1, data.length⟩ ++ [b]
  | none => BlockHeader.toBytes ⟨isLast, 0, data.length⟩ ++ data

/-- The blocks of data that needs `count` full blocks before its last one. -/
def encodeBlocks (level : Int) : Nat → Bytes → Bytes
  | 0, data => encodeBlock level true data
  | count + 1, data =>
    encodeBlock level false (data.take maxBlockSize)
      ++ encodeBlocks level count (data.drop maxBlockSize)

/-- The frame of a byte string. -/
def encode (level : Int) (data : Bytes) : Bytes :=
  frameStart ++ encodeBlocks level ((data.length - 1) / maxBlockSize) data

end ContentVault.Zstandard
