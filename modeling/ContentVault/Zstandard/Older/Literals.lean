import ContentVault.Zstandard.Literals
import ContentVault.Zstandard.Older.Header
set_option autoImplicit false

/-!
# Literals of older formats

The literals of a block are stored, repeated or Huffman-coded, as in the current format.  Their
headers are laid out differently, weights may all be one without being written, and in the two
oldest formats the states that weights are coded with have to end at zero.
-/

namespace ContentVault.Zstandard.Older

/-! ## Tables -/

/-- Reads a description of a table, which lies in at least four bytes. -/
def readStates (bytes : Array UInt8) (maxAccuracy maxSymbol : Nat) :
    Except Fault (Fse.Table × Nat) :=
  if bytes.size < 4 then .error .badTable else Fse.readTable bytes maxAccuracy maxSymbol

/-- Reads symbols with two states that take turns, until the bits are used up and both states are
zero.  `seen` holds the symbols so far, last one first; there are at most `limit`. -/
def alternateToZero (t : Fse.Table) :
    Nat → Nat → Nat → Backward → List Nat → Except Fault (List Nat)
  | 0, _, _, _, _ => .error .badTable
  | limit + 1, current, other, r, seen =>
    if r.isOverrun then .error .badTable
    else if r.isFinished && current = 0 then
      if other = 0 then .ok seen.reverse else .error .badTable
    else
      let state := t.states.getD current default
      let (more, r) := r.read state.bits
      alternateToZero t limit other (state.base + more) r (state.symbol :: seen)

/-- The symbols of a bit string coded with two states that end at zero. -/
def decodeToZero (t : Fse.Table) (bytes : Array UInt8) (limit : Nat) :
    Except Fault (List Nat) :=
  match Backward.start bytes with
  | .error fault => .error fault
  | .ok r =>
    let (first, r) := r.read t.accuracy
    let (second, r) := r.read t.accuracy
    alternateToZero t (limit + 1) first second r []

/-! ## Weights -/

/-- The numbers of weights that need not be written if all of them are one. -/
def allOnes : List Nat := [1, 2, 3, 4, 7, 8, 15, 16, 31, 32, 63, 64, 127, 128]

/-- The first byte of a description whose weights are all one is at least this. -/
def firstAllOnes : Nat := 242

/-- Reads weights that are coded with states. -/
def readCodedWeights (f : Format) (bytes : Array UInt8) : Except Fault (List Nat) := do
  let (states, used) ← readStates bytes 12 255
  let coded := bytes.extract used bytes.size
  if f.endsAtZero then decodeToZero states coded 255 else Fse.decodePaired states coded 255

/-- Reads a description of weights, whose codes have at most `limit` bits; the answer also holds
what follows it. -/
def readWeights (f : Format) (limit : Nat) (bs : Bytes) :
    Except Fault (Huffman.Weights × Bytes) := do
  match bs with
  | [] => .error .truncated
  | header :: rest =>
    let h := header.toNat
    if firstAllOnes ≤ h then
      let count := allOnes.getD (h - firstAllOnes) 0
      let weights ← Huffman.Weights.complete limit (List.replicate count 1)
      .ok (weights, rest)
    else if 128 ≤ h then
      let count := h - 127
      let (front, rest) ← takeBytes ((count + 1) / 2) rest
      let weights ← Huffman.Weights.complete limit ((Huffman.Weights.halves front).take count)
      .ok (weights, rest)
    else
      let (front, rest) ← takeBytes h rest
      let weights ← readCodedWeights f front.toArray
      let weights ← Huffman.Weights.complete limit weights
      .ok (weights, rest)

/-! ## Coded literals -/

/-- Decodes literals in one stream with the table in front of it. -/
def decodeOne (f : Format) (size : Nat) (bs : Bytes) :
    Except Fault (Array UInt8 × Huffman.Table) := do
  let (weights, streams) ← readWeights f f.maxSingleDepth bs
  let table := Huffman.Table.single weights weights.depth
  let streams := streams.toArray
  let out ← table.decodeStream size streams 0 streams.size
  .ok (out, table)

/-- When two bytes at a place are worth the larger table. -/
def Format.preference (f : Format) : Huffman.Preference :=
  if f = .seven then { Huffman.Preference.older with margin := 8 } else .older

/-- Decodes literals in four streams with the table in front of them. -/
def decodeFour (f : Format) (size : Nat) (bs : Bytes) :
    Except Fault (Array UInt8 × Huffman.Table) := do
  let isPaired := f.preference.prefersPairs size bs.length
  let limit := if isPaired then Huffman.maxDepth else f.maxSingleDepth
  let (weights, streams) ← readWeights f limit bs
  let table :=
    if isPaired then Huffman.Table.paired weights Huffman.maxDepth
    else Huffman.Table.single weights weights.depth
  let streams := streams.toArray
  let layout ← Huffman.Layout.read streams
  let out ← table.decodeApart (Huffman.shares size) streams layout
  .ok (out, table)

/-- Decodes literals in four streams.  In some formats as many bytes as there are literals stand for
themselves, and a single byte is repeated. -/
def decodeShort (f : Format) (size : Nat) (bs : Bytes) :
    Except Fault (Array UInt8 × Option Huffman.Table) := do
  let coded := bs.length
  if size = 0 || size < coded then .error .badLiterals
  else if coded = size then
    if f.keepsUncoded then .ok (bs.toArray, none) else .error .badLiterals
  else if coded ≤ 1 then
    match bs, f.repeatsOne with
    | [b], true => .ok (Array.replicate size b, none)
    | _, _ => .error .badLiterals
  else
    let (out, table) ← decodeFour f size bs
    .ok (out, some table)

/-! ## Placing literals -/

/-- Copies read at most this many bytes behind the literals. -/
def literalMargin : Nat := 8

/-- Literals that are set aside, with zeros behind them. -/
def setAside (bytes : Array UInt8) (table? : Option Huffman.Table) (rest : Bytes) : Literals where
  bytes
  table?
  rest
  behind := Array.replicate literalMargin 0

/-- The same byte `size` times, also behind the literals. -/
def repeated (size : Nat) (b : UInt8) (table? : Option Huffman.Table) (rest : Bytes) :
    Literals where
  bytes := Array.replicate size b
  table?
  rest
  behind := Array.replicate literalMargin b

/-- Literals that stay where they are stored if there are enough bytes behind them. -/
def stored (bytes aside : Bytes) (table? : Option Huffman.Table) (rest : Bytes) : Literals :=
  let behind := (rest.take literalMargin).toArray
  if behind.size < literalMargin then setAside aside.toArray table? rest
  else { bytes := bytes.toArray, table?, rest, areInPlace := true, behind }

/-! ## Headers -/

/-- Reads literals of the oldest format, whose header starts with two bits for their kind.  Stored
literals that are set aside start with their own header. -/
def readFirst (bs : Bytes) : Except Fault Literals := do
  let header := Bytes.ofLittleEndian (bs.take 3)
  let size := header / 4
  if bs.length < 11 then .error .truncated
  else
    match header % 4 with
    | 0 =>
      let size := size % (1 <<< 19)
      let coded := Bytes.ofLittleEndian ((bs.drop 2).take 3) / 32
      let (front, rest) ← takeBytes coded (bs.drop 5)
      if maxBlockSize < size then .error .badLiterals
      else
        let (out, _) ← decodeShort .four size front
        .ok (setAside out none rest)
    | 1 =>
      let (front, rest) ← takeBytes size (bs.drop 3)
      .ok (stored front (bs.take size) none rest)
    | 2 =>
      if maxBlockSize < size then .error .badLiterals
      else .ok (repeated size (bs.getD 3 0) none (bs.drop 4))
    | _ => .error .badLiterals

/-- The width of the header of coded literals, and the width of each of its two numbers in bits. -/
def codedHeader (form : Nat) : Nat × Nat :=
  if form = 2 then (4, 14) else if form = 3 then (5, 18) else (3, 10)

/-- The width of the header of stored or repeated literals, and the width of its number in bits. -/
def plainHeader (form : Nat) : Nat × Nat :=
  if form = 2 then (2, 12) else if form = 3 then (3, 20) else (1, 5)

/-- Reads coded literals of a later format. -/
def readCoded (f : Format) (form : Nat) (bs : Bytes) : Except Fault Literals := do
  let (width, bits) := codedHeader form
  let header := bigEndian (bs.take width)
  let size := (header >>> bits) % (1 <<< bits)
  let (front, rest) ← takeBytes (header % (1 <<< bits)) (bs.drop width)
  if bs.length < 5 || maxBlockSize < size then .error .badLiterals
  else if form = 1 then
    let (out, table) ← decodeOne f size front
    .ok (setAside out (some table) rest)
  else
    let (out, table?) ← decodeShort f size front
    .ok (setAside out table? rest)

/-- Reads literals that are coded with the table used last, which has to have two bytes at a
place. -/
def readAgain (table? : Option Huffman.Table) (form : Nat) (bs : Bytes) :
    Except Fault Literals := do
  let (width, bits) := codedHeader form
  let header := bigEndian (bs.take width)
  let size := (header >>> bits) % (1 <<< bits)
  let (front, rest) ← takeBytes (header % (1 <<< bits)) (bs.drop width)
  match table? with
  | none => .error .dictionaryNeeded
  | some table =>
    if form ≠ 1 || !table.isPaired then .error .badLiterals
    else
      let streams := front.toArray
      let out ← table.decodeStream size streams 0 streams.size
      .ok (setAside out table? rest)

/-- Reads stored or repeated literals of a later format. -/
def readPlain (table? : Option Huffman.Table) (kind form : Nat) (bs : Bytes) :
    Except Fault Literals := do
  let (width, bits) := plainHeader form
  let size := bigEndian (bs.take width) % (1 <<< bits)
  if kind = 2 then
    let (front, rest) ← takeBytes size (bs.drop width)
    .ok (stored front front table? rest)
  else
    match bs.drop width with
    | [] => .error .truncated
    | b :: rest =>
      if maxBlockSize < size then .error .badLiterals else .ok (repeated size b table? rest)

/-- Reads literals of a later format: the header starts with two bits for their kind and two for its
form. -/
def readLater (f : Format) (table? : Option Huffman.Table) (bs : Bytes) :
    Except Fault Literals :=
  let first := (bs.headD 0).toNat
  let kind := first / 64
  let form := first / 16 % 4
  if bs.length < 3 then .error .truncated
  else if kind = 0 then readCoded f form bs
  else if kind = 1 then readAgain table? form bs
  else readPlain table? kind form bs

/-- Reads the literals at the front of a block. -/
def readLiterals (f : Format) (table? : Option Huffman.Table) (bs : Bytes) :
    Except Fault Literals :=
  match f with
  | .four => readFirst bs
  | .five => readLater f none bs
  | .six => readLater f none bs
  | .seven => readLater f table? bs

end ContentVault.Zstandard.Older
