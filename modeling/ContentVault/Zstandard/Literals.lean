import ContentVault.Zstandard.Huffman.Streams
set_option autoImplicit false

/-!
# The literals of a block

A block starts with the bytes that are not copied from earlier output: stored as
they are, as one repeated byte, or Huffman-coded with a table of their own or the
table used last.
-/

namespace ContentVault.Zstandard

/-- No block regenerates more bytes than this. -/
def maxBlockSize : Nat := 131072

/-- How many bytes a copy may read or write beyond its end. -/
def copyMargin : Nat := 32

/-- The literals of a block, the table for a later block, and what follows them.  Literals that
are not stored with enough bytes after them have to be set aside before they are copied. -/
structure Literals where
  bytes : Array UInt8
  table? : Option Huffman.Table
  rest : Bytes
  areInPlace : Bool := false
  /-- The bytes that lie behind the literals. -/
  behind : Array UInt8 := #[]

namespace Literals

/-- The literals, set aside where `before` was if they have to be, and what lies there then. -/
def setAside (l : Literals) (before : Array UInt8) : Literals × Array UInt8 :=
  let size := l.bytes.size
  if l.areInPlace then ({ l with behind := (l.rest.take copyMargin).toArray }, before)
  else
    let behind := (Array.range copyMargin).map fun i => before.getD (size + i) 0
    ({ l with behind }, l.bytes ++ before.extract size before.size)

/-- The bytes from one index up to another of the literals and what lies behind them. -/
def memory (l : Literals) (first last : Nat) : Array UInt8 :=
  l.bytes.extract first last ++ l.behind.extract 0 (last - l.bytes.size)

/-- Size of the header of stored or repeated literals, and where their number starts in it. -/
def plainHeader (form : Nat) : Nat × Nat :=
  if form = 1 then (2, 4) else if form = 3 then (3, 4) else (1, 3)

/-- Size of the header of coded literals, and the width of each of its two numbers. -/
def codedHeader (form : Nat) : Nat × Nat :=
  if form = 2 then (4, 14) else if form = 3 then (5, 18) else (3, 10)

/-- Reads stored or repeated literals. -/
def readPlain (table? : Option Huffman.Table) (limit kind form : Nat) (bs : Bytes) :
    Except Fault Literals := do
  let (width, shift) := plainHeader form
  let (header, bs) ← takeBytes width bs
  let size := Bytes.ofLittleEndian header >>> shift
  if limit < size then .error .badLiterals
  else if kind = 0 then
    let (front, rest) ← takeBytes size bs
    let areInPlace := !(rest.drop (copyMargin - 1)).isEmpty
    .ok { bytes := front.toArray, table?, rest, areInPlace }
  else
    match bs with
    | [] => .error .badLiterals
    | b :: rest => .ok { bytes := Array.replicate size b, table?, rest }

/-- Reads the table of `size` literals from the front of their coded form. -/
def readTable (four : Bool) (size : Nat) (bs : Bytes) : Except Fault (Huffman.Table × Bytes) :=
  match Huffman.Weights.read bs with
  | .error fault => .error fault
  | .ok (weights, rest) =>
    let width := max Huffman.usualWidth weights.depth
    let table :=
      if four && Huffman.Preference.current.prefersPairs size bs.length then
        Huffman.Table.paired weights width
      else Huffman.Table.single weights width
    .ok (table, rest)

/-- Reads coded literals. -/
def readCoded (table? : Option Huffman.Table) (limit kind form : Nat) (bs : Bytes) :
    Except Fault Literals := do
  let (width, bits) := codedHeader form
  let (header, bs) ← takeBytes width bs
  let n := Bytes.ofLittleEndian header >>> 4
  let size := n % (1 <<< bits)
  let coded := n >>> bits
  if limit < size || (form ≠ 0 && size < 6) then .error .badLiterals
  else
    let (front, rest) ← takeBytes coded bs
    let (table, streams) ←
      if kind = 2 then readTable (form ≠ 0) size front
      else match table? with
        | none => .error .dictionaryNeeded
        | some table => .ok (table, front)
    let streams := streams.toArray
    let out ←
      if form = 0 then table.decodeStream size streams 0 streams.size
      else table.decodeFour size streams
    .ok { bytes := out, table? := some table, rest }

/-- Reads the literals at the front of a block; at most `limit` bytes. -/
def read (table? : Option Huffman.Table) (limit : Nat) (bs : Bytes) : Except Fault Literals :=
  match bs with
  | [] => .error .truncated
  | b :: _ =>
    let kind := b.toNat % 4
    let form := b.toNat / 4 % 4
    if kind < 2 then readPlain table? limit kind form bs
    else readCoded table? limit kind form bs

end Literals

end ContentVault.Zstandard
