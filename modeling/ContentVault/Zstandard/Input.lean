import ContentVault.Zstandard.Bits
set_option autoImplicit false

/-!
# Taking data in

Compressed data is taken in and decompressed data handed on in pieces.  What a decoder does
depends on the pieces in a few places: a frame that ends in the piece it starts in and whose
output is one piece is decoded at once.
-/

namespace ContentVault.Zstandard

/-- Data is taken in in pieces of this size. -/
def inputPiece : Nat := 131075

/-- Output is handed on in pieces of this size. -/
def outputPiece : Nat := 8192

/-- Data that is being taken in: what is left, and how many bytes are gone. -/
structure Input where
  rest : Bytes
  taken : Nat := 0

namespace Input

/-- How many bytes are left of the current piece, or how many the next one has. -/
def piece (s : Input) : Nat := inputPiece - s.taken % inputPiece

/-- Takes `count` bytes. -/
def take (count : Nat) (s : Input) : Except Fault (Bytes × Input) :=
  match takeBytes count s.rest with
  | .error fault => .error fault
  | .ok (front, rest) => .ok (front, ⟨rest, s.taken + count⟩)

/-- Takes the number that `width` bytes stand for, lowest byte first. -/
def takeNumber (width : Nat) (s : Input) : Except Fault (Nat × Input) :=
  match s.take width with
  | .error fault => .error fault
  | .ok (front, s) => .ok (Bytes.ofLittleEndian front, s)

/-- The data from `start` up to `stop` is no more than the rest of a piece. -/
def isWithinPiece (start stop : Input) : Bool := stop.taken - start.taken ≤ start.piece

end Input

end ContentVault.Zstandard
