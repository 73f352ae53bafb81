import ContentVault.Zstandard.Older.Sequences
set_option autoImplicit false

/-!
# Sequences of the later formats

The two later formats code the numbers of a sequence as the current one does.  They number the
ways to give a table differently, and small offset values count back differently.
-/

namespace ContentVault.Zstandard.Older

/-- The largest code of an offset. -/
def maxOffsetCode : Nat := 28

/-- The largest code of an offset whose least value grows with the code in the earlier of the two
formats. -/
def maxGrowingCode : Nat := 26

/-- How offsets are coded. -/
def offsetField (f : Format) : Field :=
  { Field.offset with
    ranges := ((List.range (maxOffsetCode + 1)).map fun n =>
      (if f = .six && maxGrowingCode < n then 2 else 1 <<< n, n)).toArray }

/-- Reads the table that `mode` asks for; the answer also holds what follows it. -/
def readTable (field : Field) (mode : Nat) (last? : Option Fse.Table) (bs : Bytes) :
    Except Fault (Fse.Table × Bytes) :=
  if mode = 2 then field.readTable 3 last? bs
  else if mode = 3 then
    match readStates (bs.take 512).toArray field.maxAccuracy field.maxCode with
    | .error fault => .error fault
    | .ok (table, used) => .ok (table, bs.drop used)
  else field.readTable mode last? bs

/-- Reads the three tables that the byte of modes asks for. -/
def readTables (f : Format) (last? : Option SequenceTables) (bs : Bytes) :
    Except Fault (SequenceTables × Bytes) := do
  let modes := (bs.headD 0).toNat
  if bs.length < 4 then .error .truncated
  else
    let (literalLength, bs) ←
      readTable .literalLength (modes / 64) (last?.map (·.literalLength)) (bs.drop 1)
    let (offset, bs) ← readTable (offsetField f) (modes / 16 % 4) (last?.map (·.offset)) bs
    let (matchLength, bs) ←
      readTable .matchLength (modes / 4 % 4) (last?.map (·.matchLength)) bs
    .ok (⟨literalLength, offset, matchLength⟩, bs)

/-- The offset that a value stands for, and the offsets used last after it.  Values above three
are new offsets; of the others the first two change places if no literals are copied. -/
def resolveOffset (recent : RecentOffsets) (value stored : Nat) : Nat × RecentOffsets :=
  if 3 < value then (value - 3, ⟨value - 3, recent.first, recent.second⟩)
  else if value = 3 then (recent.third, ⟨recent.third, recent.first, recent.second⟩)
  else if (value = 2) = (stored = 0) then (recent.first, recent)
  else (recent.second, ⟨recent.second, recent.first, recent.third⟩)

/-- Reads the number that the code of a state stands for. -/
def readValue (field : Field) (s : Fse.State) (r : WordReader) : Nat × WordReader :=
  let (least, bits) := field.ranges.getD s.symbol (0, 0)
  let (more, r) := r.read bits
  (least + more, r)

/-- The most bits of the numbers of a sequence with which the word need not slide once more. -/
def maxValueBits : Nat := 31

/-- Reads a sequence. -/
def nextLater (f : Format) (tables : SequenceTables) (c : Cursor) (recent : RecentOffsets) :
    Sequence × Cursor × RecentOffsets :=
  let (value, r) := readValue (offsetField f) c.offset c.bits
  let (copied, r) := readValue .matchLength c.matchLength r
  let (stored, r) := readValue .literalLength c.literalLength r
  let (distance, recent) := resolveOffset recent value stored
  let r := if maxValueBits < r.used - c.bits.used then r.refill.2 else r
  let (literalLength, r) := step tables.literalLength c.literalLength r
  let (matchLength, r) := step tables.matchLength c.matchLength r
  let (offset, r) := step tables.offset c.offset r
  (⟨stored, distance, copied⟩, ⟨literalLength, offset, matchLength, r⟩, recent)

/-- What a block of the later formats leaves to the next: tables and offsets used last. -/
structure LaterMemory where
  tables? : Option SequenceTables
  recent : RecentOffsets

/-- What the first block starts with, and in the earlier of the two formats every block. -/
def LaterMemory.initial (f : Format) : LaterMemory :=
  ⟨none, if f = .six then ⟨1, 1, 1⟩ else .initial⟩

/-- Carries out the sequences of a block of the later formats.  Tables that are read for no
sequences can be used again only if there were others before them. -/
def decodeLater (f : Format) (literals : Literals) (m : LaterMemory) (w : Window) :
    Except Fault (LaterMemory × Window) := do
  match literals.rest with
  | [] => .error .truncated
  | 0 :: _ => .ok (m, ← appendRest literals 0 w)
  | bs =>
    let (count, bs) ← readCount bs
    let (tables, bs) ← readTables f m.tables? bs
    if count = 0 then
      .ok (⟨m.tables?.map fun _ => tables, m.recent⟩, ← appendRest literals 0 w)
    else
      let cursor ← Cursor.start tables bs.toArray
      let done ← runSequences f (nextLater f tables) literals count ⟨cursor, m.recent, w, 0⟩
      .ok (⟨some tables, done.memory⟩, ← appendRest literals done.used done.window)

end ContentVault.Zstandard.Older
