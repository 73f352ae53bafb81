import ContentVault.Content.Chunk
import ContentVault.Store.Collection
import ContentVault.Store.SlotMap
set_option autoImplicit false

/-!
# Documents of a chunked store

A blob is one document about it and one document for each chunk of its content.  The
chunks carry the token of the lease under which they were written, and come before
each other by blob, token and number, so that the chunks of one writer stand together
in the order of their numbers.
-/

namespace ContentVault

/-! ## Chunks -/

/-- The key of a chunk: its blob, the token of its writer, and its number. -/
structure ChunkKey where
  store : StoreId
  writer : UInt64
  index : UInt32
  deriving DecidableEq, Repr, Inhabited

namespace ChunkKey

instance : Ord ChunkKey :=
  ⟨compareLex (compareOn store) (compareLex (compareOn writer) (compareOn index))⟩

instance : Std.TransOrd ChunkKey :=
  inferInstanceAs
    (Std.TransCmp (compareLex (compareOn store) (compareLex (compareOn writer) (compareOn index))))

theorem compare_def (a b : ChunkKey) :
    compare a b
      = (compare a.store b.store).then
          ((compare a.writer b.writer).then (compare a.index b.index)) := rfl

instance : Std.LawfulEqOrd ChunkKey where
  compare_self := by
    intro a
    simp
  eq_of_compare := by
    intro a b h
    rw [compare_def, Ordering.then_eq_eq, Ordering.then_eq_eq] at h
    cases a; cases b
    simp only [mk.injEq]
    exact ⟨Std.LawfulEqCmp.eq_of_compare h.1, Std.LawfulEqCmp.eq_of_compare h.2.1,
      Std.LawfulEqCmp.eq_of_compare h.2.2⟩

instance : Describe ChunkKey where
  describe k :=
    s!"ChunkKey \x7b store: {k.store.describe}, writer: {k.writer.toNat}, "
      ++ s!"index: {k.index.toNat} \x7d"

/-- The least key of a writer's chunks. -/
def first (store : StoreId) (writer : UInt64) : ChunkKey := ⟨store, writer, 0⟩

end ChunkKey

/-- A chunk as it is stored. -/
structure ChunkDoc where
  store : StoreId
  writer : UInt64
  index : UInt32
  data : Bytes
  deriving DecidableEq, Repr, Inhabited

instance : EncodedSize ChunkDoc where
  encodedSize d :=
    encodedSize d.store + encodedSize d.writer + encodedSize d.index + encodedSize d.data

/-- A stored chunk without its owner. -/
def ChunkDoc.toChunk (key : ChunkKey) (doc : ChunkDoc) : Chunk := ⟨key.index, doc.data⟩

/-! ## Blobs -/

/-- What is known about a committed blob beside its content. -/
structure StoreMeta where
  contentType : String
  fileSize : UInt64
  status : Status
  compressedLength : UInt64
  chunkCount : UInt32
  writer : UInt64
  deriving DecidableEq, Repr, Inhabited

instance : EncodedSize StoreMeta where
  encodedSize m :=
    encodedSize m.contentType + encodedSize m.fileSize + encodedSize m.status
      + encodedSize m.compressedLength + encodedSize m.chunkCount + encodedSize m.writer

/-- The blob that a description and its content make up. -/
def StoreMeta.toRecord (m : StoreMeta) (id : StoreId) (content : Bytes) : ContentRecord :=
  ⟨id, content, m.contentType, m.fileSize, m.status⟩

/-- A reserved or committed identifier with its lease or description. -/
structure Entry (κ ρ : Type) where
  id : κ
  lease? : Option Lease
  record? : Option ρ
  deriving DecidableEq, Repr, Inhabited

namespace Entry

variable {κ ρ : Type}

instance [EncodedSize κ] [EncodedSize ρ] : EncodedSize (Entry κ ρ) where
  encodedSize e := encodedSize e.id + encodedSize e.lease? + encodedSize e.record?

/-- An identifier under a lease. -/
def reserved (id : κ) (lease : Lease) : Entry κ ρ := ⟨id, some lease, none⟩

/-- The same identifier, committed. -/
def commit (e : Entry κ ρ) (record : ρ) : Entry κ ρ :=
  { e with lease? := none, record? := some record }

/-- The identifier is not committed and its lease has lapsed. -/
def isClaimable (e : Entry κ ρ) (now : UInt64) : Bool :=
  e.record?.isNone && e.lease?.all fun lease => !lease.isLive now

/-- The identifier is not committed and held by a live lease of `token`. -/
def isHeldBy (e : Entry κ ρ) (token now : UInt64) : Bool :=
  e.record?.isNone && e.lease?.any fun lease => lease.isHeldBy token now

/-- The identifier is not committed and held by a lease of `token`, live or not. -/
def isLeasedTo (e : Entry κ ρ) (token : UInt64) : Bool :=
  e.record?.isNone && e.lease?.any fun lease => lease.token == token

end Entry

/-- A blob's document. -/
abbrev StoreDoc := Entry StoreId StoreMeta

/-- A file's document. -/
abbrev FileDoc := Entry FileId FileRecord

end ContentVault
