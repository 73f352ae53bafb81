import ContentVault.Zstandard.Fse
set_option autoImplicit false

/-!
# Huffman tables for literals

Each byte value has a weight; weight zero means that it does not occur, and a value
of weight `w` fills `2 ^ (w - 1)` places of the smallest table.  The last value has no
weight of its own in the description: it takes what is left of the table.  A table may
be wider than the smallest one, and its places may hold two bytes where the codes of both
fit into the width.
-/

namespace ContentVault.Zstandard.Huffman

/-- The longest code that a table may have. -/
def maxDepth : Nat := 12

/-- The width of a table whose codes are not longer. -/
def usualWidth : Nat := 11

/-! ## Weights -/

/-- The weights of byte values, and the length of the longest code. -/
structure Weights where
  weights : List Nat
  depth : Nat
  deriving Repr, Inhabited

namespace Weights

/-- Number of places that a weight fills. -/
def places (weight : Nat) : Nat := if weight = 0 then 0 else 1 <<< (weight - 1)

/-- The given weights and that of the last value; codes have at most `limit` bits. -/
def complete (limit : Nat) (weights : List Nat) : Except Fault Weights :=
  let total := weights.foldl (fun total weight => total + places weight) 0
  if total = 0 || 255 < weights.length || weights.any (limit < ·) then .error .badTable
  else
    let depth := Nat.log2 total + 1
    let rest := 1 <<< depth - total
    if limit < depth || rest ≠ 1 <<< Nat.log2 rest then .error .badTable
    else
      let weights := weights ++ [Nat.log2 rest + 1]
      let ones := weights.count 1
      if ones < 2 || ones % 2 = 1 then .error .badTable else .ok ⟨weights, depth⟩

/-- The weights written as half bytes, the high half first. -/
def halves (bs : Bytes) : List Nat := bs.flatMap fun b => [b.toNat / 16, b.toNat % 16]

/-- Reads a description; the answer also holds what follows it. -/
def read (bs : Bytes) : Except Fault (Weights × Bytes) := do
  match bs with
  | [] => .error .truncated
  | header :: rest =>
    let h := header.toNat
    if 128 ≤ h then
      let count := h - 127
      let (front, rest) ← takeBytes ((count + 1) / 2) rest
      let weights ← complete maxDepth ((halves front).take count)
      .ok (weights, rest)
    else
      let (front, rest) ← takeBytes h rest
      let (states, used) ← Fse.readTable front.toArray 6 255
      let weights ← Fse.decodePaired states (front.drop used).toArray 255
      let weights ← complete maxDepth weights
      .ok (weights, rest)

end Weights

/-! ## Tables -/

/-- A place of a table: the bytes that it stands for, one or two, and the length of their codes. -/
structure Entry where
  first : UInt8
  second? : Option UInt8
  bits : Nat
  deriving Repr, Inhabited

/-- A table of `2 ^ width` places. -/
structure Table where
  width : Nat
  entries : Array Entry
  isPaired : Bool
  deriving Inhabited

namespace Table

/-- The places of the values of one weight in a table of the given width. -/
def entriesOf (w : Weights) (width weight : Nat) : List Entry :=
  (w.weights.zipIdx).flatMap fun (given, value) =>
    if given = weight then
      List.replicate (Weights.places weight <<< (width - w.depth))
        ⟨UInt8.ofNat value, none, w.depth + 1 - weight⟩
    else []

/-- The table with one byte at each place: longer codes come first. -/
def single (w : Weights) (width : Nat) : Table where
  width
  entries := ((List.range w.depth).flatMap fun i => entriesOf w width (i + 1)).toArray
  isPaired := false

/-- A place of the table with two bytes where the bits after the first code hold a second one. -/
def pair (t : Table) (index : Nat) : Entry :=
  let first := t.entries.getD index default
  let second := t.entries.getD ((index <<< first.bits) % (1 <<< t.width)) default
  if first.bits + second.bits ≤ t.width then
    ⟨first.first, some second.first, first.bits + second.bits⟩
  else first

/-- The table with two bytes at a place where there is room for both. -/
def paired (w : Weights) (width : Nat) : Table :=
  let t := single w width
  { width, entries := (Array.range (1 <<< width)).map t.pair, isPaired := true }

end Table

/-! ## The choice between one byte and two -/

/-- What building a table and decoding 256 bytes with it cost. -/
structure Cost where
  table : Nat
  bytes : Nat
  deriving Repr, Inhabited

/-- The cost for `blocks` times 256 bytes. -/
def Cost.total (c : Cost) (blocks : Nat) : Nat := c.table + c.bytes * blocks

/-- How to choose between one byte and two at a place: the costs of both by the ratio of coded size
to decoded size in sixteenths, and the part of its cost that the larger table has to save. -/
structure Preference where
  costs : Array (Cost × Cost)
  margin : Nat

namespace Preference

/-- The preference of the current format. -/
def current : Preference where
  costs := #[(⟨0, 0⟩, ⟨1, 1⟩), (⟨0, 0⟩, ⟨1, 1⟩), (⟨150, 216⟩, ⟨381, 119⟩),
    (⟨170, 205⟩, ⟨514, 112⟩), (⟨177, 199⟩, ⟨539, 110⟩), (⟨197, 194⟩, ⟨644, 107⟩),
    (⟨221, 192⟩, ⟨735, 107⟩), (⟨256, 189⟩, ⟨881, 106⟩), (⟨359, 188⟩, ⟨1167, 109⟩),
    (⟨582, 187⟩, ⟨1570, 114⟩), (⟨688, 187⟩, ⟨1712, 122⟩), (⟨825, 186⟩, ⟨1965, 136⟩),
    (⟨976, 185⟩, ⟨2131, 150⟩), (⟨1180, 186⟩, ⟨2070, 175⟩), (⟨1377, 185⟩, ⟨1731, 202⟩),
    (⟨1412, 185⟩, ⟨1695, 202⟩)]
  margin := 32

/-- The preference of older formats. -/
def older : Preference where
  costs := #[(⟨0, 0⟩, ⟨1, 1⟩), (⟨0, 0⟩, ⟨1, 1⟩), (⟨38, 130⟩, ⟨1313, 74⟩),
    (⟨448, 128⟩, ⟨1353, 74⟩), (⟨556, 128⟩, ⟨1353, 74⟩), (⟨714, 128⟩, ⟨1418, 74⟩),
    (⟨883, 128⟩, ⟨1437, 74⟩), (⟨897, 128⟩, ⟨1515, 75⟩), (⟨926, 128⟩, ⟨1613, 75⟩),
    (⟨947, 128⟩, ⟨1729, 77⟩), (⟨1107, 128⟩, ⟨2083, 81⟩), (⟨1177, 128⟩, ⟨2379, 87⟩),
    (⟨1242, 128⟩, ⟨2415, 93⟩), (⟨1349, 128⟩, ⟨2644, 106⟩), (⟨1455, 128⟩, ⟨2422, 124⟩),
    (⟨722, 128⟩, ⟨1891, 145⟩)]
  margin := 16

/-- Two bytes at a place are worth the larger table. -/
def prefersPairs (p : Preference) (size coded : Nat) : Bool :=
  let ratio := if size ≤ coded then 15 else 16 * coded / size
  let (one, two) := p.costs.getD ratio default
  let blocks := size / 256
  two.total blocks + two.total blocks / p.margin < one.total blocks

end Preference

end ContentVault.Zstandard.Huffman
