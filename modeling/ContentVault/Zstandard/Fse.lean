import ContentVault.Zstandard.Bits
set_option autoImplicit false

/-!
# Finite-state entropy tables

A table has `2 ^ accuracy` states.  Each stands for a symbol and says how many bits
to read for the next state and from where to count.  A table is built from the
share of states of each symbol, where the share `-1` means a single state for which
all bits are read afresh.
-/

namespace ContentVault.Zstandard.Fse

/-- A state: its symbol, and how the next state is found. -/
structure State where
  symbol : Nat
  bits : Nat
  base : Nat
  deriving Repr, Inhabited

/-- A table of `2 ^ accuracy` states. -/
structure Table where
  accuracy : Nat
  states : Array State
  deriving Repr, Inhabited

/-- The table of one symbol, for which no bits are read. -/
def Table.constant (symbol : Nat) : Table := ⟨0, #[⟨symbol, 0, 0⟩]⟩

/-! ## Building a table -/

/-- The symbols of share `-1` take states from the last one down; the answer also holds the
number of states left before them. -/
def placeRare (shares : List Int) (size : Nat) : Array Nat × Nat :=
  (shares.zipIdx).foldl
    (fun (states, free) (share, symbol) =>
      if share = -1 then (states.setIfInBounds (free - 1) symbol, free - 1) else (states, free))
    (Array.replicate size 0, size)

/-- The next place of the walk that visits the states before `free`, at most `fuel` steps on. -/
def nextPlace (size free : Nat) : Nat → Nat → Nat
  | 0, place => place
  | fuel + 1, place =>
    let place := (place + size / 2 + size / 8 + 3) % size
    if free ≤ place then nextPlace size free fuel place else place

/-- A symbol takes `count` places of the walk. -/
def placeSymbol (size free symbol : Nat) : Nat → Array Nat × Nat → Array Nat × Nat
  | 0, walk => walk
  | count + 1, (states, place) =>
    placeSymbol size free symbol count
      (states.setIfInBounds place symbol, nextPlace size free size place)

/-- The symbol of each state. -/
def spread (shares : List Int) (size : Nat) : Array Nat :=
  let (states, free) := placeRare shares size
  ((shares.zipIdx).foldl
    (fun walk (share, symbol) => placeSymbol size free symbol share.toNat walk)
    (states, 0)).1

/-- Gives each state its transition: the states of a symbol share its next states evenly. -/
def transitions (accuracy : Nat) (symbols : Array Nat) (shares : List Int) : Array State :=
  let first := (shares.map fun share => if share = -1 then 1 else share.toNat).toArray
  (symbols.foldl
    (fun (states, counts) symbol =>
      let count := counts.getD symbol 1
      let bits := accuracy - Nat.log2 count
      (states.push ⟨symbol, bits, (count <<< bits) - (1 <<< accuracy)⟩,
        counts.setIfInBounds symbol (count + 1)))
    (Array.mkEmpty symbols.size, first)).1

/-- The table of the given shares, whose sizes add up to `2 ^ accuracy`. -/
def Table.build (accuracy : Nat) (shares : List Int) : Table :=
  ⟨accuracy, transitions accuracy (spread shares (1 <<< accuracy)) shares⟩

/-! ## Reading a description of a table -/

/-- Reads runs of shares that are zero, from bit `place` on; the answer holds their number and the
position after them. -/
def zeroRun (bytes : Array UInt8) : Nat → Nat → Nat → Nat × Nat
  | 0, count, place => (count, place)
  | fuel + 1, count, place =>
    let more := bitsAt bytes place 2
    if more = 3 then zeroRun bytes fuel (count + 3) (place + 2) else (count + more, place + 2)

/-- Reads shares until `remaining` states are given away.  `seen` holds the shares so far, last
one first. -/
def readShares (bytes : Array UInt8) (maxSymbol : Nat) :
    Nat → Nat → Nat → List Int → Except Fault (List Int × Nat)
  | 0, _, _, _ => .error .badTable
  | fuel + 1, remaining, place, seen =>
    if remaining = 0 then
      if seen.length ≤ maxSymbol + 1 then .ok (seen.reverse, place) else .error .badTable
    else if maxSymbol < seen.length then .error .badTable
    else
      let width := Nat.log2 (remaining + 1) + 1
      let value := bitsAt bytes place width
      let short := value % (1 <<< (width - 1))
      let threshold := (1 <<< width) - 1 - (remaining + 1)
      let (value, place) :=
        if short < threshold then (short, place + width - 1)
        else if 1 <<< (width - 1) ≤ value then (value - threshold, place + width)
        else (value, place + width)
      let share : Int := (value : Int) - 1
      if remaining < share.natAbs then .error .badTable
      else if share = 0 then
        let (zeros, place) := zeroRun bytes (8 * bytes.size) 0 place
        readShares bytes maxSymbol fuel remaining place
          (List.replicate (min zeros 256) 0 ++ share :: seen)
      else readShares bytes maxSymbol fuel (remaining - share.natAbs) place (share :: seen)

/-- Reads a description at the front of `bytes`; the answer holds the table and the number of
bytes that describe it. -/
def readTable (bytes : Array UInt8) (maxAccuracy maxSymbol : Nat) : Except Fault (Table × Nat) :=
  let accuracy := bitsAt bytes 0 4 + 5
  if maxAccuracy < accuracy then .error .badTable
  else
    match readShares bytes maxSymbol ((1 <<< accuracy) + maxSymbol + 2) (1 <<< accuracy) 4 [] with
    | .error fault => .error fault
    | .ok (shares, place) =>
      let used := (place + 7) / 8
      if bytes.size < used then .error .badTable
      else .ok (.build accuracy shares, used)

/-! ## Walking through the states -/

namespace Table

/-- Reads the first state. -/
def enter (t : Table) (r : Backward) : State × Backward :=
  let (index, r) := r.read t.accuracy
  (t.states.getD index default, r)

/-- Reads the state after `s`. -/
def step (t : Table) (s : State) (r : Backward) : State × Backward :=
  let (more, r) := r.read s.bits
  (t.states.getD (s.base + more) default, r)

end Table

/-- Reads symbols with two states that take turns, until the bits are used up.  `seen` holds the
symbols so far, last one first; there are at most `limit`. -/
def alternate (t : Table) : Nat → State → State → Backward → List Nat → Except Fault (List Nat)
  | 0, _, _, _, _ => .error .badTable
  | limit + 1, current, other, r, seen =>
    let (next, r) := t.step current r
    if r.isOverrun then .ok (other.symbol :: current.symbol :: seen).reverse
    else alternate t limit other next r (current.symbol :: seen)

/-- The symbols of a bit string coded with two states. -/
def decodePaired (t : Table) (bytes : Array UInt8) (limit : Nat) : Except Fault (List Nat) :=
  match Backward.start bytes with
  | .error fault => .error fault
  | .ok r =>
    let (first, r) := t.enter r
    let (second, r) := t.enter r
    if r.isOverrun then .error .badTable else alternate t limit first second r []

end ContentVault.Zstandard.Fse
