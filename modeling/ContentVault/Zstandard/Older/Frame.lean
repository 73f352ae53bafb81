import ContentVault.Bytes.XxHash
import ContentVault.Zstandard.Older.EarlySequences
import ContentVault.Zstandard.Older.LaterSequences
set_option autoImplicit false

/-!
# Frames of older formats

The blocks of a frame are decoded one after the other.  A block of its own kind ends the frame; in
the latest of the older formats it may hold a part of the checksum.  Any other block without
contents ends the frame too.
-/

namespace ContentVault.Zstandard.Older

/-! ## Buffers -/

/-- The buffers that are kept from frame to frame of a format: their sizes for input and output. -/
structure Buffers where
  format : Format
  input : Nat
  output : Nat
  deriving DecidableEq, Repr, Inhabited

/-- The buffers for a frame after those for the frame before; they grow where they are too small. -/
def Buffers.fit (kept? : Option Buffers) (h : Header) : Buffers :=
  match kept? with
  | none => ⟨h.format, h.margin, h.neededOutput⟩
  | some b =>
    if b.format = h.format then
      ⟨h.format, max b.input h.margin, max b.output h.neededOutput⟩
    else ⟨h.format, h.margin, h.neededOutput⟩

/-! ## Blocks -/

/-- What one block leaves to the next. -/
structure FrameState where
  huffman? : Option Huffman.Table
  memory : LaterMemory
  window : Window

/-- The largest compressed block, in bytes. -/
def Format.maxCompressed (f : Format) : Nat :=
  if f = .four then maxBlockSize else maxBlockSize - 1

/-- Decodes the contents of a compressed block. -/
def decodeCompressed (f : Format) (bs : Bytes) (s : FrameState) : Except Fault FrameState := do
  if f.maxCompressed < bs.length then .error .badBlock
  else
    let literals ← readLiterals f s.huffman? bs
    match f with
    | .four => .ok { s with window := ← decodeEarly f literals s.window }
    | .five => .ok { s with window := ← decodeEarly f literals s.window }
    | .six =>
      let (_, window) ← decodeLater f literals (.initial f) s.window
      .ok { s with window }
    | .seven =>
      let (memory, window) ← decodeLater f literals s.memory s.window
      .ok ⟨literals.table?, memory, window⟩

/-- Decodes the contents of a block before the last one. -/
def decodeContents (f : Format) (kind : Nat) (bs : Bytes) (s : FrameState) :
    Except Fault FrameState :=
  if kind = 0 then decodeCompressed f bs s
  else if kind = 1 then
    if s.window.room < bs.length then .error .badBlock
    else .ok { s with window := s.window.push bs.toArray }
  else .error .badBlock

/-- Hands output on, unless the lap has not grown from `size` bytes: a new lap starts if the buffer
has no room for another block. -/
def handOn (h : Header) (size : Nat) (s : FrameState) : FrameState :=
  if s.window.lap.size = size then s else { s with window := s.window.turn h.margin }

/-! ## Frames -/

/-- Compares the part of a checksum that the last block holds. -/
def checkSum (h : Header) (last : BlockHeader) (out : Bytes) : Except Fault Unit :=
  let sum := ((XxHash.hash out).toNat >>> 11) % (1 <<< 22)
  if !h.hasChecksum || last.kind ≠ 3 || sum = last.sum then .ok ()
  else .error .wrongChecksum

/-- Decodes the blocks of a frame up to the last one, at most `fuel` of them; the answer also holds
the header of the last one and what follows it.  A block that goes on in another piece of input is
put together in the buffer for input. -/
def decodeBlocks (h : Header) (b : Buffers) :
    Nat → Input → FrameState → Except Fault (FrameState × BlockHeader × Input)
  | 0, _, _ => .error .truncated
  | fuel + 1, input, s =>
    match BlockHeader.read input with
    | .error fault => .error fault
    | .ok (block, input) =>
      if block.isEnd then .ok (s, block, input)
      else if input.piece < block.size && b.input < block.size then .error .badBlock
      else
        match input.take block.size with
        | .error fault => .error fault
        | .ok (front, input) =>
          let size := s.window.lap.size
          match decodeContents h.format block.kind front s with
          | .error fault => .error fault
          | .ok s => decodeBlocks h b fuel input (handOn h size s)

/-- Decodes a frame; its first number is taken already. -/
def decodeFrame (f : Format) (kept? : Option Buffers) (input : Input) :
    Except Fault (Bytes × Buffers × Input) := do
  let (h, input) ← Header.read f input
  let b := Buffers.fit kept? h
  let (s, last, input) ←
    decodeBlocks h b (input.rest.length + 1) input ⟨none, .initial f, { capacity := b.output }⟩
  let out := s.window.output.toList
  let () ← checkSum h last out
  .ok (out, b, input)

end ContentVault.Zstandard.Older
