import ContentVault.Zstandard.Older.Sequences
set_option autoImplicit false

/-!
# Sequences of the early formats

In the two oldest formats the states stand for the lengths themselves.  The longest length that a
state can stand for is continued in extra bytes, which lie apart from the bits.  One offset value
stands for an offset used before.
-/

namespace ContentVault.Zstandard.Older

/-! ## Tables -/

/-- The table whose states stand for themselves. -/
def plainTable (width : Nat) : Fse.Table :=
  ⟨width, (Array.range (1 <<< width)).map fun n => ⟨n, width, 0⟩⟩

/-- How one of the three numbers is coded: the width of its symbols and of a symbol that is the only
one in bits, and the limit for tables described in a block. -/
structure EarlyField where
  width : Nat
  onlyWidth : Nat
  maxAccuracy : Nat

namespace EarlyField

/-- Number of literals to copy. -/
def literalLength : EarlyField := ⟨6, 8, 10⟩

/-- How far back to copy from. -/
def offset : EarlyField := ⟨5, 5, 9⟩

/-- Number of bytes of earlier output to copy. -/
def matchLength : EarlyField := ⟨7, 8, 10⟩

/-- The largest symbol. -/
def maxSymbol (field : EarlyField) : Nat := (1 <<< field.width) - 1

end EarlyField

/-- How a table is given. -/
inductive TableForm where
  | plain
  | only
  | last
  | described

/-- The form that a mode asks for. -/
def TableForm.ofMode (f : Format) (mode : Nat) : TableForm :=
  if f = .four then
    match mode with
    | 1 => .plain
    | 2 => .only
    | _ => .described
  else
    match mode with
    | 0 => .plain
    | 1 => .only
    | 2 => .last
    | _ => .described

/-- Reads a table; the answer also holds what follows it.  There is no table to use again. -/
def readEarlyTable (field : EarlyField) (form : TableForm) (bs : Bytes) :
    Except Fault (Fse.Table × Bytes) :=
  match form with
  | .plain => .ok (plainTable field.width, bs)
  | .only =>
    match bs with
    | b :: next :: rest => .ok (.constant (b.toNat % (1 <<< field.onlyWidth)), next :: rest)
    | _ => .error .truncated
  | .last => .error .badTable
  | .described =>
    match readStates (bs.take 512).toArray field.maxAccuracy field.maxSymbol with
    | .error fault => .error fault
    | .ok (table, used) => .ok (table, bs.drop used)

/-! ## Extra bytes -/

/-- Extra bytes: where the next one is, and where they end. -/
structure Extra where
  bytes : Array UInt8
  place : Nat
  stop : Nat

namespace Extra

/-- The number that `count` extra bytes stand for, lowest byte first. -/
def peek (e : Extra) (count : Nat) : Nat := gather e.bytes e.place count

/-- Passes over `count` extra bytes. -/
def skip (e : Extra) (count : Nat) : Extra := { e with place := e.place + count }

/-- The last extra byte is read again and again. -/
def stay (e : Extra) : Extra := { e with place := min e.place (e.stop - 1) }

/-- The length after an extra byte of 255: three bytes in the oldest format; later two, whose lowest
bit says if there is a third. -/
def readLong (f : Format) (e : Extra) : Option (Nat × Extra) :=
  if f = .four then
    if e.place + 3 ≤ e.stop then some (e.peek 3, e.skip 3) else none
  else if e.place + 2 ≤ e.stop then
    if e.peek 1 % 2 = 1 && e.place + 2 < e.stop then some (e.peek 3 / 2, e.skip 3)
    else some (e.peek 2 / 2, e.skip 2)
  else none

/-- The length that starts with the longest one of a state: an extra byte is added, or 255 says that
the length itself follows. -/
def goOn (f : Format) (length : Nat) (e : Extra) : Nat × Extra :=
  let (more, e) := if e.place < e.stop then (e.peek 1, e.skip 1) else (0, e)
  if more < 255 then (length + more, e.stay)
  else
    match e.readLong f with
    | some (length, e) => (length, e.stay)
    | none => (length, e.stay)

end Extra

/-! ## Sequences -/

/-- What goes from one sequence to the next: the extra bytes, and the offsets used last and before,
which changes only with a new offset or where no literals are copied. -/
structure EarlyMemory where
  extra : Extra
  last : Nat
  before : Nat

/-- The offset that counts as used before the first sequence of a block. -/
def firstOffset (f : Format) : Nat := if f = .four then 4 else 1

/-- What the first sequence of a block starts with. -/
def EarlyMemory.initial (f : Format) (extra : Extra) : EarlyMemory :=
  ⟨extra, firstOffset f, firstOffset f⟩

/-- The length that a symbol stands for; the largest symbol is continued in extra bytes. -/
def EarlyField.lengthOf (field : EarlyField) (f : Format) (symbol : Nat) (e : Extra) :
    Nat × Extra :=
  if symbol = field.maxSymbol then e.goOn f symbol else (symbol, e)

/-- The largest code of an offset whose least value grows with the code. -/
def maxGrowingOffset : Nat := 26

/-- The least offset of a code, and how many bits to add. -/
def offsetRange (code : Nat) : Nat × Nat :=
  if code = 0 then (1, 0)
  else (if maxGrowingOffset < code then 1 else 1 <<< (code - 1), code - 1)

/-- Reads the offset that a code stands for and the next states of offset and literal length, in the
order of the format. -/
def readOffset (f : Format) (tables : SequenceTables) (c : Cursor) :
    Nat × Fse.State × Fse.State × WordReader :=
  let (least, bits) := offsetRange c.offset.symbol
  if f = .four then
    let (literalLength, r) := step tables.literalLength c.literalLength c.bits
    let (offset, r) := step tables.offset c.offset r
    let (more, r) := r.read bits
    (least + more, literalLength, offset, r)
  else
    let (more, r) := c.bits.read bits
    let (offset, r) := step tables.offset c.offset r
    let (literalLength, r) := step tables.literalLength c.literalLength r
    (least + more, literalLength, offset, r)

/-- Reads a sequence. -/
def nextEarly (f : Format) (tables : SequenceTables) (c : Cursor) (m : EarlyMemory) :
    Sequence × Cursor × EarlyMemory :=
  let (stored, extra) := EarlyField.literalLength.lengthOf f c.literalLength.symbol m.extra
  let (value, literalLength, offset, r) := readOffset f tables c
  let isOld := c.offset.symbol = 0
  let old := if c.literalLength.symbol = 0 then m.before else m.last
  let distance := if isOld then old else value
  let before := if isOld && stored ≠ 0 then m.before else m.last
  let (copied, extra) := EarlyField.matchLength.lengthOf f c.matchLength.symbol extra
  let (matchLength, r) := step tables.matchLength c.matchLength r
  (⟨stored, distance, copied + f.minMatch⟩, ⟨literalLength, offset, matchLength, r⟩,
    ⟨extra, distance, before⟩)

/-- The number of sequences; the answer also holds what follows it. -/
def readEarlyCount (f : Format) (bs : Bytes) : Except Fault (Nat × Bytes) :=
  if f = .four then
    match takeBytes 2 bs with
    | .error fault => .error fault
    | .ok (front, rest) => .ok (Bytes.ofLittleEndian front, rest)
  else
    match bs with
    | [] => .error .truncated
    | b :: rest =>
      if b.toNat < 128 then .ok (b.toNat, rest)
      else
        match rest with
        | [] => .error .truncated
        | low :: rest => .ok (256 * (b.toNat - 128) + low.toNat, rest)

/-- Reads the modes of the tables, the extra bytes and the tables; the answer also holds what
follows.  At least three bytes come after the extra bytes. -/
def readEarlyTables (f : Format) (bs : Bytes) :
    Except Fault (SequenceTables × Extra × Bytes) := do
  let byte (i : Nat) : Nat := (bs.getD i 0).toNat
  let modes := byte 0
  let (start, size) :=
    if modes / 2 % 2 = 1 then (3, 256 * byte 1 + byte 2) else (2, 256 * (modes % 2) + byte 1)
  if bs.length < start + size + 3 then .error .truncated
  else
    let form (mode : Nat) := TableForm.ofMode f (mode % 4)
    let (literalLength, rest) ←
      readEarlyTable .literalLength (form (modes / 64)) (bs.drop (start + size))
    let (offset, rest) ← readEarlyTable .offset (form (modes / 16)) rest
    let (matchLength, rest) ← readEarlyTable .matchLength (form (modes / 4)) rest
    let extra : Extra := ⟨(bs.take (start + size + 3)).toArray, start, start + size⟩
    .ok (⟨literalLength, offset, matchLength⟩, extra, rest)

/-- Carries out the sequences of a block of the early formats.  In the oldest one, bits are there
even for no sequences and have to end with the last one. -/
def decodeEarly (f : Format) (literals : Literals) (w : Window) : Except Fault Window := do
  match f, literals.rest with
  | .five, 0 :: _ => appendRest literals 0 w
  | _, bs =>
    let (count, bs) ← readEarlyCount f bs
    let (tables, extra, bs) ← readEarlyTables f bs
    if f ≠ .four && count = 0 then appendRest literals 0 w
    else
      let cursor ← Cursor.start tables bs.toArray
      let done ←
        runSequences f (nextEarly f tables) literals count ⟨cursor, .initial f extra, w, 0⟩
      if f = .four && !done.cursor.bits.refill.2.isFinished then .error .badSequences
      else appendRest literals done.used done.window

end ContentVault.Zstandard.Older
