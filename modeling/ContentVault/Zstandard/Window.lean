import ContentVault.Zstandard.Bits
set_option autoImplicit false

/-!
# The buffer that a frame is decoded into

Matches copy from earlier output, which is kept in a buffer.  When the buffer has no room for
another block it is written anew from its start, one lap after the other.  What is left of the
lap before can still be reached: the bytes that the new lap has not written over, and in the
place of the others the new ones.  Copies are made in steps of several bytes, so a copy may
write over bytes behind its end too.  A frame refers to nothing that is written over as long as
it keeps to its window.
-/

namespace ContentVault.Zstandard

/-- A buffer of `capacity` bytes, and the output of a frame so far. -/
structure Window where
  capacity : Nat
  /-- The output of all laps but the current one. -/
  gone : Array UInt8 := #[]
  /-- What the lap before the current one has written. -/
  old : Array UInt8 := #[]
  /-- What the current lap has written. -/
  lap : Array UInt8 := #[]
  deriving Inhabited

/-- Copies `count` bytes from `distance` bytes back, one after the other, so that a copy may
reach into itself. -/
def copyBack (distance : Nat) : Nat → Array UInt8 → Array UInt8
  | 0, out => out
  | count + 1, out => copyBack distance count (out.push (out.getD (out.size - distance) 0))

namespace Window

/-- The output so far. -/
def output (w : Window) : Array UInt8 := w.gone ++ w.lap

/-- How many bytes fit into the rest of the buffer. -/
def room (w : Window) : Nat := w.capacity - w.lap.size

/-- Appends bytes. -/
def push (w : Window) (bs : Array UInt8) : Window := { w with lap := w.lap ++ bs }

/-- The byte at a place of the buffer. -/
def byteAt (w : Window) (place : Nat) : UInt8 :=
  if place < w.lap.size then w.lap.getD place 0 else w.old.getD place 0

/-- Writes bytes behind the end of what the current lap has written. -/
def spill (w : Window) (bs : Array UInt8) : Window :=
  if w.old.size ≤ w.lap.size then w
  else
    let write (old : Array UInt8) (b : UInt8 × Nat) : Array UInt8 :=
      old.setIfInBounds (w.lap.size + b.2) b.1
    { w with old := bs.zipIdx.foldl write w.old }

/-- Copies `count` bytes from `distance` bytes back in the current lap; `reach` bytes are written
in all. -/
def copyNear (w : Window) (distance count reach : Nat) : Window :=
  let w := { w with lap := copyBack distance count w.lap }
  if w.old.isEmpty then w
  else w.spill ((Array.range (reach - count)).map fun i =>
    w.lap.getD (w.lap.size - distance + i % distance) 0)

/-- Copies `count` bytes from `distance` bytes back; `reach` tells how many are written at a place
for a number of bytes of the current lap.  Bytes of the lap before are all read before any is
written. -/
def copy (w : Window) (distance count : Nat) (reach : Nat → Nat → Nat) : Except Fault Window :=
  if distance ≤ w.lap.size then
    if distance = 0 then .error .badSequences
    else .ok (w.copyNear distance count (reach w.lap.size count))
  else
    let behind := distance - w.lap.size
    if w.old.size < behind then .error .badSequences
    else
      let first := w.old.size - behind
      let early := min count behind
      let w := w.push ((Array.range early).map fun i => w.byteAt (first + i))
      let late := count - early
      .ok (if late = 0 then w else w.copyNear distance late (reach w.lap.size late))

/-- Starts a new lap if there is no room for `margin` bytes. -/
def turn (w : Window) (margin : Nat) : Window :=
  if w.capacity < w.lap.size + margin then
    { w with gone := w.gone ++ w.lap, old := w.lap, lap := #[] }
  else w

@[simp] theorem output_push (w : Window) (bs : Array UInt8) :
    (w.push bs).output = w.output ++ bs := by
  simp [output, push]

@[simp] theorem output_spill (w : Window) (bs : Array UInt8) : (w.spill bs).output = w.output := by
  unfold spill
  split <;> rfl

@[simp] theorem output_turn (w : Window) (margin : Nat) : (w.turn margin).output = w.output := by
  unfold turn
  split <;> simp [output]

end Window

end ContentVault.Zstandard
