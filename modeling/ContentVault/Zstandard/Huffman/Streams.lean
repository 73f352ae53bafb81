import ContentVault.Zstandard.Huffman
import ContentVault.Zstandard.WordReader
set_option autoImplicit false

/-!
# Huffman-coded streams

A stream of literals is read backward through a word.  One stream has to end with the last
byte decoded.  Four streams share their bytes evenly and are decoded side by side where each
of them fills a word and the table has the usual width; then the bits of a stream may reach
into the streams before it, and only a stream that has left its own bytes behind while all
four were decoded is refused.
-/

namespace ContentVault.Zstandard.Huffman

/-- A stream that is being decoded, and what came out of it. -/
structure Lane where
  reader : WordReader
  out : Array UInt8

namespace Lane

/-- Takes the code of one place of the table. -/
def step (t : Table) (l : Lane) : Lane :=
  let entry := t.entries.getD (l.reader.peek t.width) default
  let out := l.out.push entry.first
  ⟨l.reader.skip entry.bits, match entry.second? with
    | none => out
    | some b => out.push b⟩

/-- Takes `count` codes. -/
def steps (t : Table) : Nat → Lane → Lane
  | 0, l => l
  | count + 1, l => steps t count (l.step t)

/-- Takes the code of the last byte.  Of a place with two bytes only the first is kept; how long
its own code is the table does not tell, and no more bits are taken than the word has. -/
def lastStep (t : Table) (l : Lane) : Lane :=
  let entry := t.entries.getD (l.reader.peek t.width) default
  let used := l.reader.used
  let taken :=
    if entry.second?.isNone then used + entry.bits
    else if used < wordBits then min wordBits (used + entry.bits)
    else used
  ⟨{ l.reader with used := taken }, l.out.push entry.first⟩

/-- Takes groups of codes for as long as the word slides and there is `room` for the bytes of a
group before `size` bytes are decoded, at most `fuel` groups. -/
def runGroups (t : Table) (group room size : Nat) : Nat → Lane → Lane
  | 0, l => l
  | fuel + 1, l =>
    let (state, reader) := l.reader.refill
    let l := { l with reader }
    if state = .more && l.out.size + room ≤ size then
      runGroups t group room size fuel (l.steps t group)
    else l

/-- Takes codes from the word as it is while there is `room` for their bytes. -/
def runTail (t : Table) (room size : Nat) : Nat → Lane → Lane
  | 0, l => l
  | fuel + 1, l =>
    if l.out.size + room ≤ size then runTail t room size fuel (l.step t) else l

/-- Decodes until there are `size` bytes. -/
def finish (t : Table) (size : Nat) (l : Lane) : Lane :=
  if t.isPaired then
    let group := if t.width ≤ usualWidth then 5 else 4
    let l := l.runGroups t group (2 * group) size size
    let l := l.runGroups t 1 2 size size
    let l := l.runTail t 2 size size
    if l.out.size < size then l.lastStep t else l
  else (l.runGroups t 4 4 size size).runTail t 1 size size

end Lane

/-- Decodes a stream of `size` bytes, which are the bytes from index `low` up to `high`. -/
def Table.decodeStream (t : Table) (size : Nat) (bytes : Array UInt8) (low high : Nat) :
    Except Fault (Array UInt8) :=
  match WordReader.start bytes low high with
  | .error fault => .error fault
  | .ok reader =>
    let l := Lane.finish t size ⟨reader, Array.mkEmpty size⟩
    if l.reader.isFinished then .ok l.out else .error .badLiterals

/-! ## Four streams -/

/-- One thing for each of four streams. -/
structure Four (α : Type) where
  first : α
  second : α
  third : α
  fourth : α

namespace Four

variable {α β : Type}

/-- Applies a function to all four. -/
def map (f : α → β) (x : Four α) : Four β := ⟨f x.first, f x.second, f x.third, f x.fourth⟩

/-- All four in their order. -/
def toList (x : Four α) : List α := [x.first, x.second, x.third, x.fourth]

end Four

/-- Where four streams lie: the index of the first byte of each, and of the byte after the last. -/
structure Layout where
  starts : Four Nat
  stop : Nat

namespace Layout

/-- The index of the byte after each stream. -/
def stops (l : Layout) : Four Nat := ⟨l.starts.second, l.starts.third, l.starts.fourth, l.stop⟩

/-- Reads the sizes of the first three streams, which come before the streams. -/
def read (bytes : Array UInt8) : Except Fault Layout :=
  let second := 6 + gather bytes 0 2
  let third := second + gather bytes 2 2
  let fourth := third + gather bytes 4 2
  if bytes.size < 10 || bytes.size < fourth then .error .badLiterals
  else .ok ⟨⟨6, second, third, fourth⟩, bytes.size⟩

/-- Each stream fills a word. -/
def fillsWords (l : Layout) : Bool :=
  l.starts.first + 8 ≤ l.starts.second && l.starts.second + 8 ≤ l.starts.third
    && l.starts.third + 8 ≤ l.starts.fourth && l.starts.fourth + 8 ≤ l.stop

end Layout

/-- How many bytes each of four streams decodes to. -/
def shares (size : Nat) : Four Nat :=
  let share := (size + 3) / 4
  ⟨share, share, share, size - 3 * share⟩

namespace Lane

/-- A stream whose bits may reach down to the first of all bytes. -/
def enter (bytes : Array UInt8) (stop : Nat) : Lane :=
  let last := bytes.getD (stop - 1) 0
  ⟨⟨bytes, 0, stop - 8, wordOf bytes (stop - 8) stop,
    if last = 0 then 0 else WordReader.padding last⟩, #[]⟩

/-- Takes five codes and slides the word. -/
def round (t : Table) (l : Lane) : Lane :=
  let l := l.steps t 5
  { l with reader := l.reader.slide (l.reader.used / 8) }

end Lane

/-- Runs rounds of all four streams until the fourth has `goal` bytes, at most `fuel` rounds. -/
def runRounds (t : Table) (goal : Nat) : Nat → Four Lane → Four Lane
  | 0, lanes => lanes
  | fuel + 1, lanes =>
    if lanes.fourth.out.size < goal then runRounds t goal fuel (lanes.map (·.round t)) else lanes

/-- How many rounds are safe: the first stream stays at the front of the bytes, and none decodes
more than its share. -/
def safeRounds (t : Table) (shares : Four Nat) (lanes : Four Lane) : Nat :=
  let most := if t.isPaired then 10 else 5
  let room := (shares.toList.zip lanes.toList).map fun (share, l) => (share - l.out.size) / most
  room.foldl min (lanes.first.reader.place / 7)

/-- Every stream is in front of the streams after it. -/
def inOrder (lanes : Four Lane) : Bool :=
  lanes.first.reader.place ≤ lanes.second.reader.place
    && lanes.second.reader.place ≤ lanes.third.reader.place
    && lanes.third.reader.place ≤ lanes.fourth.reader.place

/-- Decodes four streams side by side, for as long as rounds are safe and the streams in order. -/
def runTogether (t : Table) (shares : Four Nat) : Nat → Four Lane → Four Lane
  | 0, lanes => lanes
  | fuel + 1, lanes =>
    let rounds := safeRounds t shares lanes
    if rounds = 0 || !inOrder lanes then lanes
    else
      runTogether t shares fuel (runRounds t (lanes.fourth.out.size + 5 * rounds) rounds lanes)

/-- Finishes a stream that was decoded beside others. -/
def finishLane (t : Table) (start share : Nat) (l : Lane) : Except Fault (Array UInt8) :=
  if l.reader.place + 8 < start then .error .badLiterals else .ok (l.finish t share).out

/-- Decodes four streams one after the other. -/
def Table.decodeApart (t : Table) (shares : Four Nat) (bytes : Array UInt8) (layout : Layout) :
    Except Fault (Array UInt8) := do
  let stops := layout.stops
  let first ← t.decodeStream shares.first bytes layout.starts.first stops.first
  let second ← t.decodeStream shares.second bytes layout.starts.second stops.second
  let third ← t.decodeStream shares.third bytes layout.starts.third stops.third
  let fourth ← t.decodeStream shares.fourth bytes layout.starts.fourth stops.fourth
  .ok (first ++ second ++ third ++ fourth)

/-- Decodes four streams that share `size` bytes. -/
def Table.decodeFour (t : Table) (size : Nat) (bytes : Array UInt8) :
    Except Fault (Array UInt8) := do
  let layout ← Layout.read bytes
  let shares := shares size
  if size < 3 * shares.first then .error .badLiterals
  else if t.width = usualWidth && layout.fillsWords && 3 * shares.first < size then
    let lanes := runTogether t shares size (layout.stops.map (Lane.enter bytes))
    let first ← finishLane t layout.starts.first shares.first lanes.first
    let second ← finishLane t layout.starts.second shares.second lanes.second
    let third ← finishLane t layout.starts.third shares.third lanes.third
    let fourth ← finishLane t layout.starts.fourth shares.fourth lanes.fourth
    .ok (first ++ second ++ third ++ fourth)
  else t.decodeApart shares bytes layout

end ContentVault.Zstandard.Huffman
