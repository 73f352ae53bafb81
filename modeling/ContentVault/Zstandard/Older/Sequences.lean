import ContentVault.Zstandard.Older.Literals
import ContentVault.Zstandard.Sequences
set_option autoImplicit false

/-!
# Carrying out the sequences of older formats

Sequences are read through a word that slides once for each of them.  Literals and earlier output
are copied in steps of eight bytes.  How the numbers of a sequence are read depends on the
format, and what it needs for that goes from one sequence to the next.
-/

namespace ContentVault.Zstandard.Older

/-- A sequence: how many literals are copied, from how far back bytes are copied, and how many. -/
structure Sequence where
  stored : Nat
  distance : Nat
  copied : Nat
  deriving DecidableEq, Repr, Inhabited

/-! ## Copying in steps -/

/-- A copy is made in steps of this many bytes. -/
def stepSize : Nat := 8

/-- The number of bytes that are written in steps to copy `count` bytes; there is always one. -/
def stepReach (count : Nat) : Nat := max 1 ((count + stepSize - 1) / stepSize) * stepSize

/-- The number of bytes that are written at a place of a buffer of `capacity` bytes to copy `count`
bytes of earlier output.  Near the end of the buffer no step is made that would not fit. -/
def matchReach (f : Format) (capacity place count : Nat) : Nat :=
  if capacity < place + stepSize || count < f.minMatch then count
  else
    let next := place + stepSize
    if capacity + f.minMatch < place + count + 2 * stepSize then
      let safe := capacity - stepSize - next
      max count (stepSize + (if safe = 0 then 0 else stepReach safe))
    else stepSize + stepReach (count - stepSize)

/-- Carries out a sequence; `used` literals are gone before it. -/
def Sequence.carryOut (f : Format) (q : Sequence) (literals : Literals) (used : Nat)
    (w : Window) : Except Fault Window :=
  let last := used + q.stored
  if w.room < q.stored + max stepSize q.copied || literals.bytes.size < last then
    .error .badSequences
  else
    let w := w.push (literals.bytes.extract used last)
    let w := w.spill (literals.memory last (used + stepReach q.stored))
    w.copy q.distance q.copied (matchReach f w.capacity)

/-! ## Reading -/

/-- Reads the first state of a table. -/
def enter (t : Fse.Table) (r : WordReader) : Fse.State × WordReader :=
  let (index, r) := r.read t.accuracy
  (t.states.getD index default, r.refill.2)

/-- Reads the state after `s`. -/
def step (t : Fse.Table) (s : Fse.State) (r : WordReader) : Fse.State × WordReader :=
  let (more, r) := r.read s.bits
  (t.states.getD (s.base + more) default, r)

/-- Where reading stands: a state of each table, and the bits. -/
structure Cursor where
  literalLength : Fse.State
  offset : Fse.State
  matchLength : Fse.State
  bits : WordReader

/-- Reads the first states from a bit string. -/
def Cursor.start (tables : SequenceTables) (bytes : Array UInt8) : Except Fault Cursor :=
  match WordReader.start bytes 0 bytes.size with
  | .error fault => .error fault
  | .ok bits =>
    let (literalLength, bits) := enter tables.literalLength bits
    let (offset, bits) := enter tables.offset bits
    let (matchLength, bits) := enter tables.matchLength bits
    .ok ⟨literalLength, offset, matchLength, bits⟩

/-- A block whose sequences are being carried out; `memory` is what goes from one sequence to the
next. -/
structure Progress (Memory : Type) where
  cursor : Cursor
  memory : Memory
  window : Window
  used : Nat

variable {Memory : Type}

/-- Reads and carries out `count` sequences, each with `next`; more bits than there are may be taken
for the last one only. -/
def runSequences (f : Format) (next : Cursor → Memory → Sequence × Cursor × Memory)
    (literals : Literals) : Nat → Progress Memory → Except Fault (Progress Memory)
  | 0, p => .ok p
  | count + 1, p =>
    let (state, bits) := p.cursor.bits.refill
    if state = .overrun then .error .badSequences
    else
      let (q, cursor, memory) := next { p.cursor with bits } p.memory
      match q.carryOut f literals p.used p.window with
      | .error fault => .error fault
      | .ok window =>
        runSequences f next literals count ⟨cursor, memory, window, p.used + q.stored⟩

/-- Appends the literals that are left after all sequences. -/
def appendRest (literals : Literals) (used : Nat) (w : Window) : Except Fault Window :=
  let rest := literals.bytes.extract used literals.bytes.size
  if w.room < rest.size then .error .badLiterals else .ok (w.push rest)

end ContentVault.Zstandard.Older
