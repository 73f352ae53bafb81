import ContentVault.Bytes.Basic
import ContentVault.Content.Error
import ContentVault.OrderedMap
set_option autoImplicit false

/-!
# Payloads in chunks

A payload is cut into chunks of one size, numbered from zero; only the last may be
shorter.  Chunks may be fetched in any order, so putting them together looks at their
numbers alone: those have to be `0, 1, 2, …`, each once.
-/

namespace ContentVault

/-- One numbered piece of a payload. -/
structure Chunk where
  index : UInt32
  data : Bytes
  deriving DecidableEq, Repr, Inhabited

namespace Chunk

/-! ## Cutting -/

/-- Cuts `count` slices of `size` bytes off the front. -/
def slices (size : Nat) : Nat → Bytes → List Bytes
  | 0, _ => []
  | count + 1, payload => payload.take size :: slices size count (payload.drop size)

/-- Number of chunks of `size` bytes that `length` bytes need. -/
def countFor (length size : Nat) : Nat := (length + size - 1) / size

/-- Numbers slices from zero. -/
def number (pieces : List Bytes) : List Chunk :=
  pieces.mapIdx fun i data => ⟨UInt32.ofNat i, data⟩

/-- Cuts a payload into chunks of `size` bytes; an empty one has none. -/
def split (payload : Bytes) (size : Nat) : Except CodecError (List Chunk) :=
  if size = 0 then .error (.invalidChunkSize size)
  else
    let count := countFor payload.length size
    if UInt32.size - 1 < count then .error (.tooManyChunks payload.length size)
    else .ok (number (slices size count payload))

/-! ## Putting together -/

/-- The chunks in the order of their numbers; equal numbers keep their order. -/
def inOrder (chunks : List Chunk) : List Chunk := chunks.mergeSort fun a b => a.index ≤ b.index

/-- Checks that chunks are numbered from `position` on without gap or repetition. -/
def checkFrom (position : Nat) : List Chunk → Except CodecError Unit
  | [] => .ok ()
  | c :: cs =>
    let expected := UInt32.ofNat position
    if c.index = expected then checkFrom (position + 1) cs
    else if c.index < expected then
      .error (.corruptData s!"duplicate chunk index {c.index.toNat}")
    else .error (.corruptData s!"missing chunk index {expected.toNat}")

/-- The payload of a complete set of chunks, given in any order. -/
def reassemble (chunks : List Chunk) : Except CodecError Bytes :=
  let sorted := inOrder chunks
  match checkFrom 0 sorted with
  | .error e => .error e
  | .ok () => .ok (sorted.flatMap (·.data))

/-! ## Several payloads at once -/

/-- Chunks of several payloads by their owners; each group keeps the order of the list. -/
def groupByOwner {κ : Type} [Ord κ] [Std.TransOrd κ] (chunks : List (κ × Chunk)) :
    OrderedMap κ (List Chunk) :=
  chunks.foldl (fun groups (owner, c) => groups.insert owner ((groups.get? owner).getD [] ++ [c]))
    .empty

end Chunk

end ContentVault
