import ContentVault.Proofs.History.Chronicle
import Mathlib.Algebra.Order.Floor.Div
set_option autoImplicit false

/-!
# Which chunks there are

Used by one client at a time, a chunked store holds exactly the chunks of its committed blobs,
each with its bytes of the content: writers whose leases lapsed, were given up or turned out
too large leave nothing behind.
-/

namespace ContentVault

namespace ChunkedStore

/-! ## The chunks of slots -/

theorem pieces_getElem? (config : ChunkedConfig) (record : ContentRecord) (i : Nat) :
    (pieces config record)[i]? = if i < (pieces config record).length
      then some ⟨UInt32.ofNat i, Chunk.slice config.chunkSize.toNat record.content i⟩
      else none := by
  unfold pieces
  cases hsplit : Chunk.split record.content config.chunkSize.toNat with
  | error e => rfl
  | ok cut =>
    rw [Chunk.split_getElem? hsplit, (Chunk.IsCut.of_split hsplit).length_eq]

theorem mem_chunkEntries_iff {pieces : List Chunk} (hnumbered : Chunk.Numbered pieces)
    (key : ChunkKey) (writer : UInt64) (doc : ChunkDoc) :
    (key, doc) ∈ chunkEntries key.store writer pieces ↔
      key.writer = writer ∧ ∃ c, pieces[key.index.toNat]? = some c ∧
        doc = ⟨key.store, key.writer, key.index, c.data⟩ := by
  rw [chunkEntries, List.mem_map]
  constructor
  · rintro ⟨c, hc, hentry⟩
    obtain ⟨hkey, rfl⟩ := Prod.mk.inj hentry
    have hindex := (hnumbered.mem_iff c).mp hc
    rw [← hkey]
    exact ⟨rfl, c, hindex, rfl⟩
  · rintro ⟨rfl, c, hc, rfl⟩
    have hindex : c.index = key.index := by
      rw [hnumbered.index_eq _ c hc, UInt32.ofNat_toNat]
    exact ⟨c, List.mem_of_getElem? hc, by rw [hindex]⟩

/-- The chunks that a store holds for slots. -/
theorem Represents.find_chunk_eq {s : ChunkedStore} {m : MemoryStore} {writer : StoreId → UInt64}
    (h : Represents s m writer) (key : ChunkKey) (doc : ChunkDoc) :
    s.chunks.find key = some doc ↔ ∃ record, m.stores.record? key.store = some record ∧
      key.writer = writer key.store ∧ key.index.toNat < (pieces s.config record).length ∧
      doc = ⟨key.store, key.writer, key.index,
        Chunk.slice s.config.chunkSize.toNat record.content key.index.toNat⟩ := by
  rw [h.chunks]
  refine exists_congr fun record => and_congr_right fun hrecord => ?_
  rw [mem_chunkEntries_iff (h.storable key.store record hrecord).cut.numbered, pieces_getElem?]
  refine and_congr_right fun _ => ?_
  by_cases hindex : key.index.toNat < (pieces s.config record).length
  · simp [hindex]
  · simp [hindex]

/-! ## How many chunks there are -/

/-- There is a chunk exactly for each number below the count of a committed blob, by its writer. -/
def ChunksPresent (s : ChunkedStore) : Prop :=
  ∀ key : ChunkKey, (s.chunks.find key).isSome = true ↔
    ∃ m, s.meta? key.store = some m ∧ m.writer = key.writer ∧ key.index < m.chunkCount

/-- The keys of the chunks of a committed blob. -/
def chunkKeys (id : StoreId) (m : StoreMeta) : List ChunkKey :=
  (List.range m.chunkCount.toNat).map fun i => ⟨id, m.writer, UInt32.ofNat i⟩

theorem mem_chunkKeys_iff (id : StoreId) (m : StoreMeta) (key : ChunkKey) :
    key ∈ chunkKeys id m ↔ key.store = id ∧ m.writer = key.writer ∧ key.index < m.chunkCount := by
  rw [chunkKeys, List.mem_map]
  constructor
  · rintro ⟨i, hi, rfl⟩
    have hlt := List.mem_range.mp hi
    refine ⟨rfl, rfl, ?_⟩
    rw [UInt32.lt_iff_toNat_lt, UInt32.toNat_ofNat', Nat.mod_eq_of_lt]
    · exact hlt
    · exact Nat.lt_trans hlt m.chunkCount.toNat_lt
  · rintro ⟨rfl, hwriter, hlt⟩
    refine ⟨key.index.toNat, List.mem_range.mpr (UInt32.lt_iff_toNat_lt.mp hlt), ?_⟩
    rw [UInt32.ofNat_toNat, hwriter]

theorem nodup_chunkKeys (id : StoreId) (m : StoreMeta) : (chunkKeys id m).Nodup := by
  refine (List.nodup_map_iff_inj_on List.nodup_range).mpr fun i hi j hj heq => ?_
  have hindex := (ChunkKey.mk.inj heq).2.2
  have hlt := m.chunkCount.toNat_lt
  have hi' := List.mem_range.mp hi
  have hj' := List.mem_range.mp hj
  have := congrArg UInt32.toNat hindex
  rwa [UInt32.toNat_ofNat', UInt32.toNat_ofNat', Nat.mod_eq_of_lt (Nat.lt_trans hi' hlt),
    Nat.mod_eq_of_lt (Nat.lt_trans hj' hlt)] at this

/-- The committed blobs of a store. -/
def blobs (s : ChunkedStore) : List (StoreId × StoreMeta) := committed s.stores.records.entries

theorem mem_blobs_iff (s : ChunkedStore) (id : StoreId) (m : StoreMeta) :
    (id, m) ∈ s.blobs ↔ s.meta? id = some m := by
  rw [blobs, mem_committed_iff, meta?, Option.bind_eq_some_iff]
  simp only [OrderedMap.mem_entries_iff]
  rfl

theorem blobs_pairwise (s : ChunkedStore) : s.blobs.Pairwise fun a b => a.1 ≠ b.1 := by
  rw [blobs, committed, List.pairwise_filterMap]
  refine s.stores.records.sorted.imp fun {a b} hlt c hc d hd => ?_
  obtain ⟨_, _, rfl⟩ := Option.map_eq_some_iff.mp hc
  obtain ⟨_, _, rfl⟩ := Option.map_eq_some_iff.mp hd
  exact hlt.ne

/-- Chunks are counted blob by blob. -/
theorem ChunksPresent.chunkCount_eq {s : ChunkedStore} (h : s.ChunksPresent) :
    s.chunkCount = (s.blobs.map fun (_, m) => m.chunkCount.toNat).sum := by
  have hkeys : (s.chunks.records.entries.map (·.1)).Nodup := by
    rw [List.nodup_iff_pairwise_ne, List.pairwise_map]
    exact s.chunks.records.sorted.imp fun {a b} hlt => hlt.ne
  have hblobs : (s.blobs.flatMap fun (id, m) => chunkKeys id m).Nodup := by
    rw [List.nodup_flatMap]
    refine ⟨fun (id, m) _ => nodup_chunkKeys id m, s.blobs_pairwise.imp fun {a b} hne => ?_⟩
    intro key ha hb
    have ha' := (mem_chunkKeys_iff _ _ key).mp ha
    have hb' := (mem_chunkKeys_iff _ _ key).mp hb
    exact hne (ha'.1.symm.trans hb'.1)
  have hperm : (s.chunks.records.entries.map (·.1)).Perm
      (s.blobs.flatMap fun (id, m) => chunkKeys id m) := by
    rw [List.perm_ext_iff_of_nodup hkeys hblobs]
    intro key
    rw [List.mem_map, List.mem_flatMap]
    constructor
    · rintro ⟨⟨key', doc⟩, hmem, rfl⟩
      have hfind : (s.chunks.find key').isSome = true := by
        rw [show s.chunks.find key' = some doc from (s.chunks.records.mem_entries_iff _ _).mp hmem]
        rfl
      obtain ⟨m, hm, hwriter, hlt⟩ := (h key').mp hfind
      exact ⟨(key'.store, m), (s.mem_blobs_iff _ _).mpr hm,
        (mem_chunkKeys_iff _ _ _).mpr ⟨rfl, hwriter, hlt⟩⟩
    · rintro ⟨⟨id, m⟩, hmem, hkey⟩
      obtain ⟨rfl, hwriter, hlt⟩ := (mem_chunkKeys_iff _ _ _).mp hkey
      obtain ⟨doc, hdoc⟩ := Option.isSome_iff_exists.mp
        ((h key).mpr ⟨m, (s.mem_blobs_iff _ _).mp hmem, hwriter, hlt⟩)
      exact ⟨(key, doc), (s.chunks.records.mem_entries_iff _ _).mpr hdoc, rfl⟩
  calc s.chunkCount
      = (s.chunks.records.entries.map (·.1)).length := (List.length_map _).symm
    _ = (s.blobs.flatMap fun (id, m) => chunkKeys id m).length := hperm.length_eq
    _ = (s.blobs.map fun (_, m) => m.chunkCount.toNat).sum := by
      simp only [List.length_flatMap, chunkKeys, List.length_map, List.length_range]

end ChunkedStore

/-! ## After any deeds -/

/-- The chunks of a store are exactly those of its committed blobs. -/
structure ExactChunks (config : ChunkedConfig) (c : Chronicle ChunkedStore) : Prop where
  present : c.backend.ChunksPresent
  /-- What was committed is described and stands in the chunks, slice by slice. -/
  described : ∀ id m, c.backend.meta? id = some m → ∃ record stored,
    .committed record ∈ c.blobEvents id ∧
    (Backend.getStore id c.backend).1 = .ok (some stored) ∧ stored.content = record.content ∧
    m.compressedLength.toNat = record.content.length ∧
    m.chunkCount.toNat = record.content.length ⌈/⌉ config.chunkSize.toNat ∧
    ∀ i doc, c.backend.chunks.find ⟨id, m.writer, i⟩ = some doc →
      doc = ⟨id, m.writer, i,
        Chunk.slice config.chunkSize.toNat record.content i.toNat⟩
  counted : c.backend.chunkCount
    = (c.backend.blobs.map fun (_, m) => m.chunkCount.toNat).sum

theorem ChunkedStore.Represents.chunksPresent {s : ChunkedStore} {m : MemoryStore}
    {writer : StoreId → UInt64} (h : ChunkedStore.Represents s m writer) : s.ChunksPresent := by
  intro key
  rw [h.meta?_eq, Option.isSome_iff_exists]
  simp only [h.find_chunk_eq, Option.map_eq_some_iff, UInt32.lt_iff_toNat_lt]
  constructor
  · rintro ⟨_, record, hrecord, hwriter, hlt, rfl⟩
    rw [← (h.storable key.store record hrecord).toNat_chunkCount (writer key.store)] at hlt
    exact ⟨_, ⟨record, hrecord, rfl⟩, hwriter.symm, hlt⟩
  · rintro ⟨_, ⟨record, hrecord, rfl⟩, hwriter, hlt⟩
    rw [(h.storable key.store record hrecord).toNat_chunkCount (writer key.store)] at hlt
    exact ⟨_, record, hrecord, hwriter.symm, hlt, rfl⟩

/-- Changes of the status leave the content alone. -/
theorem content_amended (events : List (Event Status ContentRecord)) (record : ContentRecord) :
    (Event.amended events record).content = record.content := by
  unfold Event.amended
  cases Event.lastChange? events <;> rfl

/-- After any deeds on a store with usable settings, its chunks are exactly those of its committed
blobs. -/
theorem exact_chunks {config : ChunkedConfig} {s : ChunkedStore}
    (hcreate : ChunkedStore.create config = .ok s) (deeds : List ((α : Type) × Deed α)) :
    ExactChunks config ((Chronicle.start s).run deeds) := by
  obtain ⟨⟨m, hm⟩, hbare⟩ := Chronicle.tells_inChunks hcreate deeds
  generalize (Chronicle.start s).run deeds = c at hm hbare ⊢
  obtain ⟨_, writer, hrep⟩ := hm.models
  have hconfig := ChunkedStore.config_eq_of_bare hbare
  refine ⟨hrep.chunksPresent, fun id d hd => ?_, hrep.chunksPresent.chunkCount_eq⟩
  rw [hrep.meta?_eq] at hd
  obtain ⟨stored, hstored, rfl⟩ := Option.map_eq_some_iff.mp hd
  have hstorable := hrep.storable id stored hstored
  have hleads := hm.blobs id
  rw [SlotMap.record?_eq_some hstored] at hleads
  obtain ⟨record, later, earlier, hevents, rfl⟩ := hleads.exists_committed
  have hcontent := content_amended later record
  refine ⟨record, _, ?_, ?_, hcontent, ?_, ?_, fun i doc hdoc => ?_⟩
  · rw [hevents]
    exact List.mem_append_right later List.mem_cons_self
  · rw [SlotBackend.getStore hm.models, hstored]
  · rw [hstorable.toNat_compressedLength, hcontent]
  · rw [hstorable.toNat_chunkCount, hstorable.cut.length_eq, hcontent, hconfig,
      Nat.ceilDiv_eq_add_pred_div]
    rfl
  · obtain ⟨_, hsame, _, _, rfl⟩ := (hrep.find_chunk_eq _ doc).mp hdoc
    cases hstored.symm.trans hsame
    rw [hconfig, hcontent]

/-- The lease of a first commit lapses after its chunks are written; a second commit under the same
token leaves three chunks, and the first one none. -/
theorem exact_chunks_after_lapse :
    let config : ChunkedConfig := ⟨2, 128, 1⟩
    let blob (content : Bytes) : ContentRecord := .fresh ⟨7, 0⟩ content "text/plain" 5
    let commit (content : Bytes) (h : content.length < UInt64.size) (clock : Clock) : Deed Unit :=
      .commitStore ⟨⟨7, 0⟩, ⟨1, 100⟩⟩ (blob content) h clock []
    let deeds : List ((α : Type) × Deed α) :=
      [⟨_, .standing (.claimStore ⟨7, 0⟩ ⟨1, 100⟩ 5)⟩,
       ⟨_, commit [9, 9, 9, 9, 9, 9, 9, 9] (by decide) ⟨99, [100]⟩⟩,
       ⟨_, .standing (.claimStore ⟨7, 0⟩ ⟨1, 200⟩ 150)⟩,
       ⟨_, commit [1, 2, 3, 4, 5] (by decide) (.still 160)⟩]
    let c := (Chronicle.start (ChunkedStore.empty config)).run deeds
    ChunkedStore.create config = .ok (.empty config) ∧ ExactChunks config c ∧
      c.backend.chunkCount = 3 ∧
      c.backend.chunks.find ⟨⟨7, 0⟩, 1, 2⟩ = some ⟨⟨7, 0⟩, 1, 2, [5]⟩ := by
  intro config blob commit deeds c
  have hcreate : ChunkedStore.create config = .ok (.empty config) := rfl
  exact ⟨hcreate, exact_chunks hcreate deeds, by decide +kernel, by decide +kernel⟩

end ContentVault
