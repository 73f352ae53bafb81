import ContentVault.Store.Chunked.State
set_option autoImplicit false

/-!
# Writing chunks in lanes

The chunks of one record are dealt to lanes in turn, and every lane adds its own in
order until one fails.  Lanes run side by side: a schedule tells which lane takes the
next steps, and what it leaves undone is done lane by lane.  The failure reported is
that of the first lane that failed.
-/

namespace ContentVault.ChunkedStore

/-- One lane: what it has still to add, and how it failed. -/
structure Lane where
  pending : List (ChunkKey × ChunkDoc)
  failure? : Option StoreError
  deriving Inhabited

namespace Lane

/-- Deals entries to `count` lanes in turn. -/
def deal (count : Nat) (entries : List (ChunkKey × ChunkDoc)) : List Lane :=
  (List.range count).map fun lane =>
    ⟨(entries.zipIdx).filterMap fun (e, i) => if i % count = lane then some e else none, none⟩

/-- The lane after an attempt to add its next entry. -/
def after (rest : List (ChunkKey × ChunkDoc)) : Except StoreError Unit → Lane
  | .ok () => ⟨rest, none⟩
  | .error e => ⟨[], some e⟩

/-- Adds the next entry. -/
def step (lane : Lane) : Client Lane :=
  match lane.pending with
  | [] => .done lane
  | (key, doc) :: rest => do
    let done ← Client.insertChunk key doc
    return after rest done

/-- Adds entries until one fails. -/
def insertAll : List (ChunkKey × ChunkDoc) → Client (Option StoreError)
  | [] => .done none
  | (key, doc) :: rest => do
    match ← Client.insertChunk key doc with
    | .ok () => insertAll rest
    | .error e => return some e

/-- Adds all that is left; the answer is the lane's failure. -/
def finish (lane : Lane) : Client (Option StoreError) :=
  match lane.failure? with
  | some e => .done (some e)
  | none => insertAll lane.pending

/-- Lets the scheduled lanes take one step each. -/
def follow : List Nat → List Lane → Client (List Lane)
  | [], lanes => .done lanes
  | i :: schedule, lanes =>
    match lanes[i]? with
    | none => follow schedule lanes
    | some lane => do
      let lane ← lane.step
      follow schedule (lanes.set i lane)

/-- Finishes the lanes one after the other; the answer is the failure of the first that failed. -/
def finishAll : List Lane → Client (Except StoreError Unit)
  | [] => .done (.ok ())
  | lane :: lanes => do
    let failure? ← lane.finish
    let rest ← finishAll lanes
    return match failure? with
      | some e => .error e
      | none => rest

end Lane

/-- The documents of a record's chunks. -/
def chunkEntries (id : StoreId) (writer : UInt64) (pieces : List Chunk) :
    List (ChunkKey × ChunkDoc) :=
  pieces.map fun c => (⟨id, writer, c.index⟩, ⟨id, writer, c.index, c.data⟩)

/-- Writes the chunks of a record in at most `parallelism` lanes. -/
def writeChunks (parallelism : Nat) (schedule : List Nat) (id : StoreId) (writer : UInt64)
    (pieces : List Chunk) : Client (Except StoreError Unit) := do
  let lanes := Lane.deal (min parallelism pieces.length) (chunkEntries id writer pieces)
  let lanes ← Lane.follow schedule lanes
  Lane.finishAll lanes

end ContentVault.ChunkedStore
