import ContentVault.Zstandard.Header
import ContentVault.Zstandard.Sequences
set_option autoImplicit false

/-!
# Blocks

A block is stored as it is, written as one byte and a count, or compressed.  Blocks of a frame
are decoded one after the other, each with what the one before has left to it.
-/

namespace ContentVault.Zstandard

/-- A frame that is being decoded. -/
structure Frame extends Header where
  /-- The frame is decoded at once, from one piece of input into one piece of output. -/
  isOnePiece : Bool
  /-- The buffer may be written anew from its start. -/
  wraps : Bool

/-- What one block leaves to the next: tables and offsets used last, and the window. -/
structure FrameState where
  huffman? : Option Huffman.Table
  tables? : Option SequenceTables
  recent : RecentOffsets
  window : Window
  /-- What lies where literals are set aside. -/
  aside : Array UInt8

/-- The state at the start of a frame. -/
def FrameState.initial (capacity : Nat) (aside : Array UInt8) : FrameState :=
  ⟨none, none, .initial, { capacity }, aside⟩

namespace Frame

/-- Hands output on: a new lap starts if the buffer has no room for another block. -/
def handOn (f : Frame) (w : Window) : Window := if f.wraps then w.turn f.blockLimit else w

/-- Appends bytes to the output. -/
def append (f : Frame) (bs : Array UInt8) (w : Window) : Except Fault Window :=
  if w.room < bs.size then .error .badBlock else .ok (f.handOn (w.push bs))

/-- In a frame of one piece, literals that are set aside lie behind the block if there is room. -/
def hasRoomBehind (f : Frame) (literals : Literals) (room : Nat) : Bool :=
  f.isOnePiece && !literals.areInPlace
    && f.blockLimit + copyMargin + literals.bytes.size + copyMargin < room

/-- The most that a compressed block may regenerate.  It may come up to literals that lie behind
it. -/
def outputLimit (f : Frame) (literals : Literals) (room : Nat) : Nat :=
  if !f.isOnePiece then min f.blockLimit room
  else if f.hasRoomBehind literals room then f.blockLimit + copyMargin
  else room

end Frame

/-- Decodes the contents of a compressed block. -/
def decodeCompressed (f : Frame) (bs : Bytes) (s : FrameState) : Except Fault FrameState := do
  let room := s.window.room
  let literals ← Literals.read s.huffman? (min f.blockLimit room) bs
  let (literals, aside) :=
    if f.hasRoomBehind literals room then (literals, s.aside) else literals.setAside s.aside
  let limit := s.window.lap.size + f.outputLimit literals room
  let (count, bs) ← readCount literals.rest
  if count = 0 then
    if bs.isEmpty then
      .ok { s with
        huffman? := literals.table?
        window := f.handOn (s.window.push literals.bytes)
        aside }
    else .error .badSequences
  else
    let (modes, bs) ← takeBytes 1 bs
    let (tables, bs) ← readTables s.tables? (Bytes.ofLittleEndian modes) bs
    let r ← Backward.start bs.toArray
    let (literalLength, r) := tables.literalLength.enter r
    let (offset, r) := tables.offset.enter r
    let (matchLength, r) := tables.matchLength.enter r
    let done ← runSequences tables literals limit count
      ⟨literalLength, offset, matchLength, r, s.recent, s.window, 0⟩
    let window := done.window.push (literals.bytes.extract done.used literals.bytes.size)
    if done.bits.isFinished && window.lap.size ≤ limit then
      .ok ⟨literals.table?, some tables, done.recent, f.handOn window, aside⟩
    else .error .badSequences

namespace BlockHeader

/-- A block of this size is allowed.  In a frame of one piece only what is compressed is bounded by
the window. -/
def fits (h : BlockHeader) (f : Frame) : Bool :=
  h.size ≤ f.blockLimit || f.isOnePiece && h.kind < 2

end BlockHeader

/-- Appends the bytes of a stored block.  Those that come with the next piece of input are handed
on separately. -/
def appendStored (f : Frame) (piece : Nat) (bs : Bytes) (w : Window) : Except Fault Window :=
  if f.isOnePiece || bs.length ≤ piece then f.append bs.toArray w
  else
    match f.append (bs.take piece).toArray w with
    | .error fault => .error fault
    | .ok w => f.append (bs.drop piece).toArray w

/-- Decodes one block of a frame; the answer also holds what follows it.  A block without contents
is passed over whatever its kind, except in a frame of one piece. -/
def decodeBlock (f : Frame) (h : BlockHeader) (input : Input) (s : FrameState) :
    Except Fault (FrameState × Input) :=
  if !h.fits f || 2 < h.kind then .error .badBlock
  else if h.contents = 0 && !f.isOnePiece then .ok (s, input)
  else
    match input.take h.contents with
    | .error fault => .error fault
    | .ok (front, rest) =>
      if h.kind = 2 then
        match decodeCompressed f front s with
        | .error fault => .error fault
        | .ok s => .ok (s, rest)
      else
        let done :=
          if h.kind = 0 then appendStored f input.piece front s.window
          else f.append (Array.replicate h.size (front.headD 0)) s.window
        match done with
        | .error fault => .error fault
        | .ok window => .ok ({ s with window }, rest)

/-- Decodes the blocks of a frame up to the last one, at most `fuel` of them; the answer also holds
the header of the last one and what follows it. -/
def decodeBlocks (f : Frame) :
    Nat → Input → FrameState → Except Fault (FrameState × BlockHeader × Input)
  | 0, _, _ => .error .truncated
  | fuel + 1, input, s =>
    match BlockHeader.read input with
    | .error fault => .error fault
    | .ok (h, input) =>
      match decodeBlock f h input s with
      | .error fault => .error fault
      | .ok (s, input) => if h.isLast then .ok (s, h, input) else decodeBlocks f fuel input s

end ContentVault.Zstandard
