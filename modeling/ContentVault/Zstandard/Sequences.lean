import ContentVault.Zstandard.Literals
import ContentVault.Zstandard.Window
set_option autoImplicit false

/-!
# The sequences of a block

A sequence copies some literals, then a stretch of earlier output.  Its three
numbers are entropy-coded, each with a table that is predefined, constant, described
in the block, or the one used last.  Small offset values name one of the three
offsets used last.
-/

namespace ContentVault.Zstandard

/-- A code for numbers: the least number of each code and how many bits to add. -/
abbrev Ranges := Array (Nat × Nat)

/-- One of the three numbers of a sequence: its codes, their shares by default, and the limits
for tables described in a block. -/
structure Field where
  ranges : Ranges
  shares : List Int
  accuracy : Nat
  maxAccuracy : Nat

namespace Field

/-- Number of literals to copy. -/
def literalLength : Field where
  ranges := #[(0, 0), (1, 0), (2, 0), (3, 0), (4, 0), (5, 0), (6, 0), (7, 0), (8, 0), (9, 0),
    (10, 0), (11, 0), (12, 0), (13, 0), (14, 0), (15, 0), (16, 1), (18, 1), (20, 1), (22, 1),
    (24, 2), (28, 2), (32, 3), (40, 3), (48, 4), (64, 6), (128, 7), (256, 8), (512, 9),
    (1024, 10), (2048, 11), (4096, 12), (8192, 13), (16384, 14), (32768, 15), (65536, 16)]
  shares := [4, 3, 2, 2, 2, 2, 2, 2, 2, 2, 2, 2, 2, 1, 1, 1, 2, 2, 2, 2, 2, 2, 2, 2, 2, 3, 2, 1,
    1, 1, 1, 1, -1, -1, -1, -1]
  accuracy := 6
  maxAccuracy := 9

/-- Number of bytes of earlier output to copy. -/
def matchLength : Field where
  ranges := ((List.range 32).map fun n => (n + 3, 0)).toArray ++
    #[(35, 1), (37, 1), (39, 1), (41, 1), (43, 2), (47, 2), (51, 3), (59, 3), (67, 4), (83, 4),
      (99, 5), (131, 7), (259, 8), (515, 9), (1027, 10), (2051, 11), (4099, 12), (8195, 13),
      (16387, 14), (32771, 15), (65539, 16)]
  shares := [1, 4, 3, 2, 2, 2, 2, 2, 2, 1, 1, 1, 1, 1, 1, 1, 1, 1, 1, 1, 1, 1, 1, 1, 1, 1, 1, 1,
    1, 1, 1, 1, 1, 1, 1, 1, 1, 1, 1, 1, 1, 1, 1, 1, 1, 1, -1, -1, -1, -1, -1, -1, -1]
  accuracy := 6
  maxAccuracy := 9

/-- Value that tells how far back to copy from. -/
def offset : Field where
  ranges := ((List.range 32).map fun n => (1 <<< n, n)).toArray
  shares := [1, 1, 1, 1, 1, 1, 2, 2, 2, 1, 1, 1, 1, 1, 1, 1, 1, 1, 1, 1, 1, 1, 1, 1, -1, -1, -1,
    -1, -1]
  accuracy := 5
  maxAccuracy := 8

/-- The largest code of a field. -/
def maxCode (f : Field) : Nat := f.ranges.size - 1

/-- Reads the table that `mode` asks for; the answer also holds what follows it. -/
def readTable (f : Field) (mode : Nat) (last? : Option Fse.Table) (bs : Bytes) :
    Except Fault (Fse.Table × Bytes) :=
  if mode = 0 then .ok (.build f.accuracy f.shares, bs)
  else if mode = 1 then
    match bs with
    | [] => .error .truncated
    | b :: rest =>
      if f.maxCode < b.toNat then .error .badTable else .ok (.constant b.toNat, rest)
  else if mode = 2 then
    match Fse.readTable (bs.take 512).toArray f.maxAccuracy f.maxCode with
    | .error fault => .error fault
    | .ok (table, used) => .ok (table, bs.drop used)
  else
    match last? with
    | none => .error .badTable
    | some table => .ok (table, bs)

/-- Reads the number that the code of a state stands for. -/
def readValue (f : Field) (s : Fse.State) (r : Backward) : Nat × Backward :=
  let (least, bits) := f.ranges.getD s.symbol (0, 0)
  let (more, r) := r.read bits
  (least + more, r)

end Field

/-- The tables used last, one for each field. -/
structure SequenceTables where
  literalLength : Fse.Table
  offset : Fse.Table
  matchLength : Fse.Table
  deriving Inhabited

/-- The three offsets used last, the latest first. -/
structure RecentOffsets where
  first : Nat
  second : Nat
  third : Nat
  deriving DecidableEq, Repr, Inhabited

namespace RecentOffsets

/-- The offsets at the start of a frame. -/
def initial : RecentOffsets := ⟨1, 4, 8⟩

/-- The offset that a value stands for, and the offsets used last after it.  Values above three
are new offsets; the others count back, by one more if no literals are copied. -/
def resolve (recent : RecentOffsets) (value literals : Nat) : Nat × RecentOffsets :=
  if 3 < value then (value - 3, ⟨value - 3, recent.first, recent.second⟩)
  else
    match value + (if literals = 0 then 1 else 0) with
    | 2 => (recent.second, ⟨recent.second, recent.first, recent.third⟩)
    | 3 => (recent.third, ⟨recent.third, recent.first, recent.second⟩)
    | 4 => (recent.first - 1, ⟨recent.first - 1, recent.first, recent.second⟩)
    | _ => (recent.first, recent)

end RecentOffsets

/-! ## Carrying out sequences -/

/-- The number of bytes that are written in steps of 16, then of twice 16. -/
def wideReach (count : Nat) : Nat := if count ≤ 16 then 16 else 16 + (count - 16 + 31) / 32 * 32

/-- The number of bytes that are written to copy `count` literals. -/
def literalReach (count : Nat) : Nat := if count ≤ 16 then 16 else 16 + wideReach (count - 16)

/-- The number of bytes that are written to copy `count` bytes of earlier output: steps of 8
where the output is near. -/
def matchReach (distance count : Nat) : Nat :=
  if 16 ≤ distance then wideReach count else max 8 ((count + 7) / 8 * 8)

/-- The number of bytes that are written at a place to copy `count` of them if steps are made only
for the bytes before `limit`: `near` of them in the first step, then as many as `reach` tells. -/
def cautiousReach (reach : Nat → Nat) (near limit place count : Nat) : Nat :=
  if count < 8 || limit < place + near then count
  else max count (near + reach (min count (limit - place) - near))

/-- Carries out a sequence: copies `stored` literals from index `used` on, then `copied` bytes from
`distance` bytes back.  Near the end of the buffer steps are made with caution. -/
def carryOut (literals : Literals) (used stored distance copied : Nat) (w : Window) :
    Except Fault Window :=
  let limit := w.capacity - copyMargin
  let isNearEnd := limit < w.lap.size + stored + copied
  let after := w.push (literals.bytes.extract used (used + stored))
  if w.old.isEmpty then after.copy distance copied fun _ => id
  else
    let reach :=
      if isNearEnd then cautiousReach wideReach 0 limit w.lap.size stored else literalReach stored
    let after := after.spill (literals.memory (used + stored) (used + reach))
    after.copy distance copied fun place =>
      if isNearEnd then cautiousReach (matchReach distance) 8 limit place else matchReach distance

/-- The state of decoding the sequences of a block: the three table states, the bits, the offsets
used last, the window, and how many literals are gone. -/
structure SequenceState where
  literalLength : Fse.State
  offset : Fse.State
  matchLength : Fse.State
  bits : Backward
  recent : RecentOffsets
  window : Window
  used : Nat

/-- Decodes and carries out `count` sequences, up to `limit` bytes in the buffer. -/
def runSequences (tables : SequenceTables) (literals : Literals) (limit : Nat) :
    Nat → SequenceState → Except Fault SequenceState
  | 0, s => .ok s
  | count + 1, s =>
    let (value, r) := Field.offset.readValue s.offset s.bits
    let (copied, r) := Field.matchLength.readValue s.matchLength r
    let (stored, r) := Field.literalLength.readValue s.literalLength r
    let (distance, recent) := s.recent.resolve value stored
    let (literalLength, matchLength, offset, r) :=
      if count = 0 then (s.literalLength, s.matchLength, s.offset, r)
      else
        let (literalLength, r) := tables.literalLength.step s.literalLength r
        let (matchLength, r) := tables.matchLength.step s.matchLength r
        let (offset, r) := tables.offset.step s.offset r
        (literalLength, matchLength, offset, r)
    if r.isOverrun || literals.bytes.size < s.used + stored
        || limit < s.window.lap.size + stored + copied then .error .badSequences
    else
      match carryOut literals s.used stored distance copied s.window with
      | .error fault => .error fault
      | .ok window =>
        runSequences tables literals limit count
          ⟨literalLength, offset, matchLength, r, recent, window, s.used + stored⟩

/-- Reads the number of sequences; the answer also holds what follows it. -/
def readCount : Bytes → Except Fault (Nat × Bytes)
  | [] => .error .truncated
  | b :: rest =>
    if b.toNat < 128 then .ok (b.toNat, rest)
    else
      match b.toNat, rest with
      | 255, low :: high :: rest => .ok (low.toNat + 256 * high.toNat + 0x7F00, rest)
      | n, low :: rest =>
        if n = 255 then .error .truncated else .ok (256 * (n - 128) + low.toNat, rest)
      | _, [] => .error .truncated

/-- Reads the three tables that the byte of modes asks for. -/
def readTables (last? : Option SequenceTables) (modes : Nat) (bs : Bytes) :
    Except Fault (SequenceTables × Bytes) := do
  if modes % 4 ≠ 0 then .error .badSequences
  else
    let (literalLength, bs) ←
      Field.literalLength.readTable (modes / 64) (last?.map (·.literalLength)) bs
    let (offset, bs) ← Field.offset.readTable (modes / 16 % 4) (last?.map (·.offset)) bs
    let (matchLength, bs) ←
      Field.matchLength.readTable (modes / 4 % 4) (last?.map (·.matchLength)) bs
    .ok (⟨literalLength, offset, matchLength⟩, bs)

end ContentVault.Zstandard
