import ContentVault.Proofs.Content.Grouping
import ContentVault.Proofs.Content.Pieces
import ContentVault.Proofs.Store.Steps
import Mathlib.Data.List.Basic
set_option autoImplicit false

/-!
# Reading a chunked store

A single read takes the chunks of one writer.  A read of a checksum takes the chunks of all
its blobs at once and sorts them out, which comes to the same: each blob is put together
from the chunks of the writer that its description names.
-/

namespace ContentVault.ChunkedStore

/-- What is known about a blob, if it is committed. -/
def meta? (s : ChunkedStore) (id : StoreId) : Option StoreMeta :=
  (s.stores.find id).bind (·.record?)

/-- An identifier whose document is held by a lease is not committed. -/
theorem meta?_of_isHeldBy {s : ChunkedStore} {id : StoreId} {doc : StoreDoc} {token now : UInt64}
    (hfind : s.stores.find id = some doc) (hheld : doc.isHeldBy token now = true) :
    s.meta? id = none := by
  simp only [Entry.isHeldBy, Bool.and_eq_true, Option.isNone_iff_eq_none] at hheld
  rw [meta?, hfind]
  exact hheld.1

/-- The chunks of a writer of a blob, in the order of their numbers. -/
def storedPieces (s : ChunkedStore) (id : StoreId) (writer : UInt64) : List Chunk :=
  (s.chunks.scanFrom (.first id writer) fun key => key.store == id && key.writer == writer).map
    fun (key, doc) => doc.toChunk key

theorem scan_writer_pairwise (s : ChunkedStore) (id : StoreId) (writer : UInt64) :
    (s.chunks.scanFrom (.first id writer)
      fun key => key.store == id && key.writer == writer).Pairwise OrderedMap.Before := by
  rw [Collection.scanFrom, OrderedMap.run_eq_filter (ChunkKey.isRun_writer id writer)]
  exact s.chunks.records.sorted.filter _

theorem mem_scan_writer_iff (s : ChunkedStore) (id : StoreId) (writer : UInt64) (key : ChunkKey)
    (doc : ChunkDoc) :
    (key, doc) ∈ s.chunks.scanFrom (.first id writer)
        (fun key => key.store == id && key.writer == writer) ↔
      s.chunks.find key = some doc ∧ key.store = id ∧ key.writer = writer := by
  rw [Collection.mem_scanFrom_iff (ChunkKey.isRun_writer id writer), Bool.and_eq_true, beq_iff_eq,
    beq_iff_eq]

theorem mem_storedPieces_iff (s : ChunkedStore) (id : StoreId) (writer : UInt64) (c : Chunk) :
    c ∈ s.storedPieces id writer ↔
      (s.chunks.find ⟨id, writer, c.index⟩).map (·.data) = some c.data := by
  rw [storedPieces, List.mem_map, Option.map_eq_some_iff]
  constructor
  · rintro ⟨⟨key, doc⟩, hmem, rfl⟩
    obtain ⟨hfind, rfl, rfl⟩ := (mem_scan_writer_iff s id writer key doc).mp hmem
    exact ⟨doc, hfind, rfl⟩
  · rintro ⟨doc, hfind, hdata⟩
    refine ⟨(_, doc), (mem_scan_writer_iff s id writer _ doc).mpr ⟨hfind, rfl, rfl⟩, ?_⟩
    simp [ChunkDoc.toChunk, hdata]

/-- Nothing but the chunks of the writer is read. -/
theorem storedPieces_congr {s t : ChunkedStore} {id : StoreId} {writer : UInt64}
    (h : ∀ i, t.chunks.find ⟨id, writer, i⟩ = s.chunks.find ⟨id, writer, i⟩) :
    t.storedPieces id writer = s.storedPieces id writer := by
  refine congrArg (List.map fun (key, doc) => ChunkDoc.toChunk key doc) ?_
  refine (t.scan_writer_pairwise id writer).eq_of_mem_iff (s.scan_writer_pairwise id writer) ?_
  rintro ⟨key, doc⟩
  rw [mem_scan_writer_iff, mem_scan_writer_iff]
  refine and_congr_left fun hkey => ?_
  obtain ⟨rfl, rfl⟩ := hkey
  rw [h key.index]

/-! ## What can be read from pieces -/

theorem assemble_eq_ok {id : StoreId} {m : StoreMeta} {pieces : List Chunk} {content : Bytes}
    (h : assemble id m pieces = .ok content) :
    pieces.length = m.chunkCount.toNat ∧ Chunk.reassemble pieces = .ok content := by
  rw [assemble] at h
  split at h
  · cases h
  next hcount =>
    split at h
    · cases h
    next found hfound =>
      split at h
      · cases h
      · cases h
        exact ⟨Decidable.not_not.mp hcount, hfound⟩

/-- Whatever is wrong with pieces, the data is called corrupt. -/
theorem readRecord_error {id : StoreId} {m : StoreMeta} {pieces : List Chunk} {e : StoreError}
    (h : readRecord id m pieces = .error e) : ∃ reason, e = .corruptData reason := by
  rw [readRecord, assemble] at h
  split at h
  next e' hassemble =>
    cases h
    split at hassemble
    · cases hassemble
      exact ⟨_, rfl⟩
    · split at hassemble
      next hreassemble =>
        cases hassemble
        obtain ⟨reason, rfl⟩ := Chunk.reassemble_error hreassemble
        exact ⟨reason, rfl⟩
      · split at hassemble
        · cases hassemble
          exact ⟨_, rfl⟩
        · cases hassemble
  · cases h

theorem readRecord_eq_ok {id : StoreId} {m : StoreMeta} {pieces : List Chunk}
    {record : ContentRecord} (h : readRecord id m pieces = .ok record) :
    ∃ content, assemble id m pieces = .ok content ∧ record = m.toRecord id content := by
  rw [readRecord] at h
  split at h
  · cases h
  next content hcontent =>
    cases h
    exact ⟨content, hcontent, rfl⟩

/-! ## The committed blobs of a checksum -/

theorem mem_committed_iff (docs : List (StoreId × StoreDoc)) (id : StoreId) (m : StoreMeta) :
    (id, m) ∈ committed docs ↔ ∃ doc, (id, doc) ∈ docs ∧ doc.record? = some m := by
  rw [committed, List.mem_filterMap]
  constructor
  · rintro ⟨⟨id', doc⟩, hdoc, hm⟩
    obtain ⟨m', hm', hpair⟩ := Option.map_eq_some_iff.mp hm
    cases hpair
    exact ⟨doc, hdoc, hm'⟩
  · rintro ⟨doc, hdoc, hm⟩
    exact ⟨(id, doc), hdoc, by simp [hm]⟩

/-- The committed blobs that a scan for a checksum finds. -/
theorem mem_committed_scan_iff (s : ChunkedStore) (hash : UInt32) (id : StoreId) (m : StoreMeta) :
    (id, m) ∈ committed
        (s.stores.scanFrom ⟨hash, 0⟩ fun id => id.hash == hash) ↔
      s.meta? id = some m ∧ id.hash = hash := by
  rw [mem_committed_iff, meta?, Option.bind_eq_some_iff]
  simp only [Collection.mem_scanFrom_iff (StoreId.isRun_hash hash), beq_iff_eq]
  constructor
  · rintro ⟨doc, ⟨hfind, hhash⟩, hm⟩
    exact ⟨⟨doc, hfind, hm⟩, hhash⟩
  · rintro ⟨⟨doc, hfind, hm⟩, hhash⟩
    exact ⟨doc, ⟨hfind, hhash⟩, hm⟩

/-- The pieces under an identifier come from chunks of a writer whom one of its descriptions
names. -/
theorem exists_of_mem_piecesOf {blobs : List (StoreId × StoreMeta)}
    {found : List (ChunkKey × ChunkDoc)} {id : StoreId} {c : Chunk}
    (h : c ∈ ((piecesOf blobs found).get? id).getD []) :
    ∃ key doc m, (key, doc) ∈ found ∧ (id, m) ∈ blobs ∧ key.store = id ∧ key.writer = m.writer ∧
      doc.toChunk key = c := by
  rw [piecesOf, Chunk.get?_groupByOwner, List.mem_map] at h
  obtain ⟨⟨owner, c'⟩, hmem, rfl⟩ := h
  rw [List.mem_filter, List.mem_filterMap] at hmem
  obtain ⟨⟨⟨key, doc⟩, hfound, hkept⟩, howner⟩ := hmem
  simp only [decide_eq_true_eq] at howner
  subst howner
  simp only [Option.ite_none_right_eq_some, Option.some.injEq, Prod.mk.injEq] at hkept
  obtain ⟨hany, rfl, rfl⟩ := hkept
  obtain ⟨⟨id', m⟩, hblob, hsame⟩ := List.any_eq_true.mp hany
  simp only [Bool.and_eq_true, beq_iff_eq] at hsame
  obtain ⟨rfl, hwriter⟩ := hsame
  exact ⟨key, doc, m, hfound, hblob, rfl, hwriter.symm, rfl⟩

theorem mem_readable_iff (blobs : List (StoreId × StoreMeta))
    (pieces : OrderedMap StoreId (List Chunk)) (record : ContentRecord) :
    record ∈ readable blobs pieces ↔
      ∃ id m, (id, m) ∈ blobs ∧
        readRecord id m ((pieces.get? id).getD []) = .ok record := by
  have htoOption : ∀ result : Except StoreError ContentRecord,
      result.toOption = some record ↔ result = .ok record := by
    intro result
    cases result with
    | error e => exact ⟨fun h => (by cases h), fun h => (by cases h)⟩
    | ok found => exact ⟨fun h => congrArg _ (Option.some.inj h), fun h => by rw [h]; rfl⟩
  simp only [readable, List.mem_filterMap, Prod.exists, htoOption]

/-! ## Reads that are carried out alone -/

theorem alone_getStore (id : StoreId) (s : Clocked ChunkedStore) :
    (getStore id).alone s
      = (match s.state.meta? id with
        | none => .ok none
        | some m => (readRecord id m (s.state.storedPieces id m.writer)).map some, s) := by
  unfold getStore meta?
  simp only [Client.alone_bind, alone_findStore]
  cases (s.state.stores.find id).bind (·.record?) with
  | none => rfl
  | some m =>
    simp only [Client.alone_bind, alone_scanChunks, Client.alone_pure, storedPieces]
    split
    next e hread =>
      rw [hread]
      rfl
    next record hread =>
      rw [hread]
      rfl

/-- A committed blob is read from the chunks of its writer, and nothing changes. -/
theorem getStore_eq (s : ChunkedStore) (id : StoreId) :
    Backend.getStore id s
      = (match s.meta? id with
        | none => .ok none
        | some m => (readRecord id m (s.storedPieces id m.writer)).map some, s) := by
  change (getStore id).unclocked s = _
  unfold Client.unclocked
  rw [alone_getStore]

/-- A read looks at the document of the blob and at the chunks of its writer, and at nothing
else. -/
theorem getStore_congr {s t : ChunkedStore} {id : StoreId} (hmeta : t.meta? id = s.meta? id)
    (h : ∀ m, s.meta? id = some m →
      ∀ i, t.chunks.find ⟨id, m.writer, i⟩ = s.chunks.find ⟨id, m.writer, i⟩) :
    (Backend.getStore id t).1 = (Backend.getStore id s).1 := by
  rw [getStore_eq, getStore_eq, hmeta]
  cases hm : s.meta? id with
  | none => rfl
  | some m => simp only [storedPieces_congr (h m hm)]

/-- The pieces of a committed blob are those of its writer. -/
theorem get?_piecesOf (s : ChunkedStore) {blobs : List (StoreId × StoreMeta)} {id : StoreId}
    {m : StoreMeta} (hmem : (id, m) ∈ blobs) (hunique : ∀ m', (id, m') ∈ blobs → m' = m) :
    ((piecesOf blobs (s.chunks.scanFrom (.first ⟨id.hash, 0⟩ 0)
        fun key => key.store.hash == id.hash)).get? id).getD []
      = s.storedPieces id m.writer := by
  -- A chunk of the blob is taken if it is its writer's, and then it is the blob's.
  have htaken : ∀ key : ChunkKey, key.store = id →
      (blobs.any fun blob => blob.1 == key.store && blob.2.writer == key.writer)
        = (key.writer == m.writer) := by
    intro key hkey
    rw [Bool.eq_iff_iff, List.any_eq_true, beq_iff_eq]
    constructor
    · rintro ⟨⟨id', m'⟩, hmem', hsame⟩
      simp only [Bool.and_eq_true, beq_iff_eq] at hsame
      obtain ⟨rfl, hwriter⟩ := hsame
      rw [← hwriter, hunique m' (hkey ▸ hmem')]
    · intro hwriter
      exact ⟨(id, m), hmem, by simp [hkey, hwriter]⟩
  unfold storedPieces piecesOf Collection.scanFrom
  rw [Chunk.get?_groupByOwner, OrderedMap.run_eq_filter (ChunkKey.isRun_hash id.hash),
    OrderedMap.run_eq_filter (ChunkKey.isRun_writer id m.writer)]
  rw [List.filter_filterMap, List.map_filterMap, List.filterMap_filter, ← List.filterMap_eq_map,
    List.filterMap_filter]
  refine List.filterMap_congr ?_
  rintro ⟨key, doc⟩ _
  by_cases hstore : key.store = id
  · subst hstore
    simp only [htaken key rfl, beq_self_eq_true, Bool.true_and, if_true]
    by_cases hwriter : key.writer = m.writer
    · simp [hwriter]
    · simp [hwriter]
  · have hother : ∀ taken : Bool,
        ((if taken then some (key.store, doc.toChunk key) else none).filter fun e => e.1 = id)
          = none := by
      intro taken
      cases taken <;> simp [Option.filter_some, hstore]
    simp only [hother, beq_eq_false_iff_ne.mpr hstore, Bool.false_and]
    simp

/-- The chunks of a checksum are sorted out among its committed blobs. -/
theorem alone_matchHash_eq_readable (hash : UInt32) (s : Clocked ChunkedStore) :
    (matchHash hash).alone s
      = (.ok (readable
          (committed (s.state.stores.scanFrom ⟨hash, 0⟩ fun id => id.hash == hash))
          (piecesOf (committed (s.state.stores.scanFrom ⟨hash, 0⟩ fun id => id.hash == hash))
            (s.state.chunks.scanFrom (.first ⟨hash, 0⟩ 0) fun key => key.store.hash == hash))),
        s) := by
  unfold matchHash
  rw [Client.alone_bind]
  change (if (committed (s.state.stores.scanFrom ⟨hash, 0⟩ fun id => id.hash == hash)).isEmpty
    then _ else _ : Client _).alone s = _
  by_cases hempty : (committed
      (s.state.stores.scanFrom ⟨hash, 0⟩ fun id => id.hash == hash)).isEmpty = true
  · rw [if_pos hempty, List.isEmpty_iff.mp hempty]
    rfl
  · rw [if_neg hempty]
    simp only [Client.alone_bind, alone_scanStores, alone_scanChunks, Client.alone_pure]

/-- The records of a checksum are those that can be read one by one. -/
theorem alone_matchHash (hash : UInt32) (s : Clocked ChunkedStore) :
    (matchHash hash).alone s
      = (.ok ((committed (s.state.stores.scanFrom ⟨hash, 0⟩ fun id => id.hash == hash)).filterMap
          fun (id, m) => (readRecord id m (s.state.storedPieces id m.writer)).toOption), s) := by
  have hblobs := mem_committed_scan_iff s.state hash
  rw [alone_matchHash_eq_readable]
  unfold readable
  refine congrArg (fun records => (Except.ok records, s)) (List.filterMap_congr ?_)
  rintro ⟨id, m⟩ hmem
  obtain ⟨hm, rfl⟩ := (hblobs id m).mp hmem
  have hunique : ∀ m', (id, m') ∈ committed
      (s.state.stores.scanFrom ⟨id.hash, 0⟩ fun id' => id'.hash == id.hash) → m' = m :=
    fun m' hmem' => Option.some.inj (((hblobs id m').mp hmem').1.symm.trans hm)
  simp only [get?_piecesOf s.state hmem hunique]

theorem matchHash_eq (s : ChunkedStore) (hash : UInt32) :
    Backend.matchHash hash s
      = (.ok ((committed (s.stores.scanFrom ⟨hash, 0⟩ fun id => id.hash == hash)).filterMap
          fun (id, m) => (readRecord id m (s.storedPieces id m.writer)).toOption), s) := by
  change (matchHash hash).unclocked s = _
  unfold Client.unclocked
  rw [alone_matchHash]

end ContentVault.ChunkedStore
