import ContentVault.Zstandard.Frame
import ContentVault.Zstandard.Older.Frame
set_option autoImplicit false

/-!
# Decoding

Compressed data is one or more frames of any format, one after the other, with nothing after the
last.
-/

namespace ContentVault.Zstandard

/-- What is kept from frame to frame. -/
structure Kept where
  buffers : Buffers := {}
  older? : Option Older.Buffers := none

/-- An older format is recognised only if this many bytes of a frame come in one piece of input. -/
def olderLookahead : Nat := 5

/-- Decodes the next frame of any sort. -/
def decodeNext (k : Kept) (input : Input) : Except Fault (Bytes × Kept × Input) := do
  let (start, rest) ← input.takeNumber 4
  if start = magic then
    let (out, buffers, rest) ← decodeFrame k.buffers input rest
    .ok (out, { k with buffers }, rest)
  else if start / 16 = 0x184D2A5 then
    let (buffers, rest) ← skipFrame k.buffers rest
    .ok ([], { k with buffers }, rest)
  else
    match Older.Format.ofStart? start with
    | none => .error .unknownFrame
    | some format =>
      if input.piece < olderLookahead then .error .unknownFrame
      else
        let (out, older, rest) ← Older.decodeFrame format k.older? rest
        .ok (out, { k with older? := some older }, rest)

/-- Decodes frames until the data ends, at most `fuel` of them. -/
def decodeFrames : Nat → Kept → Input → Except Fault Bytes
  | 0, _, _ => .error .truncated
  | fuel + 1, k, input =>
    match decodeNext k input with
    | .error fault => .error fault
    | .ok (out, k, input) =>
      if input.rest.isEmpty then .ok out
      else
        match decodeFrames fuel k input with
        | .error fault => .error fault
        | .ok more => .ok (out ++ more)

/-- Decodes compressed data; there has to be at least one frame. -/
def decode (bs : Bytes) : Except Fault Bytes := decodeFrames (bs.length + 1) {} ⟨bs, 0⟩

end ContentVault.Zstandard
