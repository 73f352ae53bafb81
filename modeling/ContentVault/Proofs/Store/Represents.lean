import ContentVault.Proofs.Store.Reads
import ContentVault.Store.Memory
set_option autoImplicit false

/-!
# Slots in a chunked store

A chunked store stands for two slot maps: each document for the slot of its identifier, with
the content of a committed blob in chunks of one writer beside it.  A store that was used by
one client at a time holds nothing else.
-/

namespace ContentVault

/-! ## Slots and documents -/

section

variable {κ ρ μ : Type}

/-- The document of a slot whose record is kept as `describe` says. -/
def Slot.toEntry (describe : ρ → μ) (id : κ) : Slot ρ → Entry κ μ
  | .reserved lease => .reserved id lease
  | .committed record => ⟨id, none, some (describe record)⟩

namespace Entry

variable (describe : ρ → μ) (id : κ) (slot : Slot ρ)

@[simp] theorem isClaimable_toEntry (now : UInt64) :
    (slot.toEntry describe id).isClaimable now = slot.isClaimable now := by
  cases slot <;> simp [Slot.toEntry, isClaimable, Slot.isClaimable, reserved]

@[simp] theorem isHeldBy_toEntry (token now : UInt64) :
    (slot.toEntry describe id).isHeldBy token now = slot.isHeldBy token now := by
  cases slot <;> simp [Slot.toEntry, isHeldBy, Slot.isHeldBy, reserved]

@[simp] theorem isLeasedTo_toEntry (token : UInt64) :
    (slot.toEntry describe id).isLeasedTo token = slot.isLeasedTo token := by
  cases slot <;> simp [Slot.toEntry, isLeasedTo, Slot.isLeasedTo, reserved]

@[simp] theorem record?_toEntry :
    (slot.toEntry describe id).record? = slot.record?.map describe := by
  cases slot <;> rfl

@[simp] theorem commit_toEntry (record : μ) :
    (slot.toEntry describe id).commit record = ⟨id, none, some record⟩ := by
  cases slot <;> rfl

end Entry

/-- What a document says of its identifier, once the record of a committed one is known. -/
def Entry.slot? (e : Entry κ μ) (record? : Option ρ) : Option (Slot ρ) :=
  match record? with
  | some record => some (.committed record)
  | none => e.lease?.map .reserved

end

namespace ChunkedStore

/-! ## The slots that a chunked store stands for -/

/-- The slot of a blob: free, reserved, or committed with the record that can be read. -/
def storeSlot (s : ChunkedStore) (id : StoreId) :
    Except StoreError (Option (Slot ContentRecord)) :=
  match s.stores.find id with
  | none => .ok none
  | some doc =>
    match doc.record? with
    | none => .ok (doc.slot? none)
    | some m =>
      (readRecord id m (s.storedPieces id m.writer)).map fun record => doc.slot? (some record)

/-- The slot of a file. -/
def fileSlot (s : ChunkedStore) (id : FileId) : Option (Slot FileRecord) :=
  (s.files.find id).bind fun doc => doc.slot? doc.record?

/-! ## Standing for slot maps -/

/-- The pieces into which a record is cut. -/
def pieces (config : ChunkedConfig) (record : ContentRecord) : List Chunk :=
  match Chunk.split record.content config.chunkSize.toNat with
  | .error _ => []
  | .ok pieces => pieces

/-- What is kept about a record of a writer. -/
def descriptionOf (config : ChunkedConfig) (writer : UInt64) (record : ContentRecord) : StoreMeta :=
  metaOf record (pieces config record).length writer

/-- A record that can be kept in chunks under an identifier, and that fits into the memory of a
machine. -/
structure Storable (config : ChunkedConfig) (id : StoreId) (record : ContentRecord) : Prop where
  id_eq : record.id = id
  cut : Chunk.IsCut record.content config.chunkSize.toNat (pieces config record)
  length_lt : record.content.length < UInt64.size

/-- The store stands for the slot maps, with committed blobs written by `writer`. -/
structure Represents (s : ChunkedStore) (m : MemoryStore) (writer : StoreId → UInt64) : Prop where
  stores : ∀ id, s.stores.find id
    = (m.stores.get? id).map (·.toEntry (descriptionOf s.config (writer id)) id)
  chunks : ∀ key doc, s.chunks.find key = some doc ↔
    ∃ record, m.stores.record? key.store = some record ∧
      (key, doc) ∈ chunkEntries key.store (writer key.store) (pieces s.config record)
  files : ∀ id, s.files.find id = (m.files.get? id).map (·.toEntry (fun record => record) id)
  storable : ∀ id record, m.stores.record? id = some record → Storable s.config id record

theorem represents_empty (config : ChunkedConfig) :
    Represents (empty config) .empty fun _ => 0 := by
  refine ⟨fun _ => rfl, fun key doc => ?_, fun _ => rfl, fun id record h => by cases h⟩
  constructor
  · intro h
    cases h
  · rintro ⟨record, h, _⟩
    cases h

/-! ## Reading back -/

theorem map_toChunk_chunkEntries (id : StoreId) (writer : UInt64) (pieces : List Chunk) :
    (chunkEntries id writer pieces).map (fun (key, doc) => doc.toChunk key) = pieces := by
  rw [chunkEntries, List.map_map]
  exact List.map_id pieces

theorem chunkEntries_pairwise {pieces : List Chunk} (h : Chunk.Numbered pieces) (id : StoreId)
    (writer : UInt64) : (chunkEntries id writer pieces).Pairwise OrderedMap.Before := by
  rw [chunkEntries, List.pairwise_map]
  refine h.pairwise_index_lt.imp fun {c d} hcd => ?_
  rw [OrderedMap.Before, ChunkKey.compare_def]
  simpa using Std.compare_eq_lt.mpr hcd

section

variable {s : ChunkedStore} {id : StoreId} {writer : UInt64} {pieces : List Chunk}

/-- If the chunks of a writer are those of numbered pieces, the pieces are found. -/
theorem storedPieces_eq (hnumbered : Chunk.Numbered pieces)
    (h : ∀ key doc, key.store = id → key.writer = writer →
      (s.chunks.find key = some doc ↔ (key, doc) ∈ chunkEntries id writer pieces)) :
    s.storedPieces id writer = pieces := by
  have hscan : s.chunks.scanFrom (.first id writer)
      (fun key => key.store == id && key.writer == writer) = chunkEntries id writer pieces := by
    refine (scan_writer_pairwise s id writer).eq_of_mem_iff
      (chunkEntries_pairwise hnumbered id writer) ?_
    rintro ⟨key, doc⟩
    rw [mem_scan_writer_iff]
    constructor
    · rintro ⟨hfind, hid, hwriter⟩
      exact (h key doc hid hwriter).mp hfind
    · intro hmem
      obtain ⟨c, _, hc⟩ := List.mem_map.mp hmem
      cases hc
      exact ⟨(h _ _ rfl rfl).mpr hmem, rfl, rfl⟩
  rw [storedPieces, hscan, map_toChunk_chunkEntries]

/-- If the chunks of a writer are some of those of numbered pieces, some of the pieces are found, in
their order. -/
theorem storedPieces_sublist (hnumbered : Chunk.Numbered pieces)
    (h : ∀ key doc, key.store = id → key.writer = writer → s.chunks.find key = some doc →
      (key, doc) ∈ chunkEntries id writer pieces) :
    (s.storedPieces id writer).Sublist pieces := by
  have hsorted := scan_writer_pairwise s id writer
  have hsubset : s.chunks.scanFrom (.first id writer)
      (fun key => key.store == id && key.writer == writer) ⊆ chunkEntries id writer pieces := by
    rintro ⟨key, doc⟩ hmem
    obtain ⟨hfind, hid, hwriter⟩ := (mem_scan_writer_iff s id writer key doc).mp hmem
    exact h key doc hid hwriter hfind
  have hentries := List.sublist_of_subperm_of_pairwise
    (List.subperm_of_subset hsorted.nodup hsubset) hsorted
    (chunkEntries_pairwise hnumbered id writer)
  have hpieces := hentries.map fun (key, doc) => doc.toChunk key
  rwa [map_toChunk_chunkEntries] at hpieces

end

namespace Storable

variable {config : ChunkedConfig} {id : StoreId} {record : ContentRecord}

theorem toNat_chunkCount (h : Storable config id record) (writer : UInt64) :
    (descriptionOf config writer record).chunkCount.toNat = (pieces config record).length := by
  rw [descriptionOf, metaOf, UInt32.toNat_ofNat', Nat.mod_eq_of_lt]
  exact h.cut.numbered.length_lt

theorem toNat_compressedLength (h : Storable config id record) (writer : UInt64) :
    (descriptionOf config writer record).compressedLength.toNat = record.content.length := by
  rw [descriptionOf, metaOf, UInt64.toNat_ofNat', Nat.mod_eq_of_lt]
  exact h.length_lt

/-- A record is read back from its pieces. -/
theorem readRecord_eq (h : Storable config id record) (writer : UInt64) :
    readRecord id (descriptionOf config writer record) (pieces config record) = .ok record := by
  have hassemble : assemble id (descriptionOf config writer record) (pieces config record)
      = .ok record.content := by
    rw [assemble, h.toNat_chunkCount, if_neg (not_not.mpr rfl), h.cut.reassemble_eq]
    simp only [h.toNat_compressedLength, ne_eq, not_true_eq_false, if_false]
  rw [readRecord, hassemble]
  simp only [StoreMeta.toRecord, descriptionOf, metaOf, ← h.id_eq]

/-- From some of its pieces a record is read back, or they are found to be too few. -/
theorem readRecord_of_sublist (h : Storable config id record) (writer : UInt64) {found : List Chunk}
    (hfound : found.Sublist (pieces config record)) :
    let expected := (pieces config record).length
    readRecord id (descriptionOf config writer record) found = .ok record ∨
      found.length < expected ∧
        readRecord id (descriptionOf config writer record) found
          = .error (.corruptData
            s!"{id.token}: expected {expected} chunks, found {found.length}") := by
  rcases Nat.lt_or_eq_of_le hfound.length_le with hlt | heq
  · refine Or.inr ⟨hlt, ?_⟩
    rw [readRecord, assemble, h.toNat_chunkCount, if_pos (Nat.ne_of_lt hlt)]
  · rw [hfound.eq_of_length heq]
    exact Or.inl (h.readRecord_eq writer)

end Storable

namespace Represents

variable {s : ChunkedStore} {m : MemoryStore} {writer : StoreId → UInt64}

theorem meta?_eq (h : Represents s m writer) (id : StoreId) :
    s.meta? id = (m.stores.record? id).map (descriptionOf s.config (writer id)) := by
  rw [meta?, h.stores, SlotMap.record?]
  cases m.stores.get? id with
  | none => rfl
  | some slot => simp

/-- The chunks of a committed blob are those of its pieces. -/
theorem find_chunk_iff (h : Represents s m writer) {key : ChunkKey} {record : ContentRecord}
    (hrecord : m.stores.record? key.store = some record) (doc : ChunkDoc) :
    s.chunks.find key = some doc ↔
      (key, doc) ∈ chunkEntries key.store (writer key.store) (pieces s.config record) := by
  rw [h.chunks]
  constructor
  · rintro ⟨record', hrecord', hmem⟩
    cases hrecord.symm.trans hrecord'
    exact hmem
  · intro hmem
    exact ⟨record, hrecord, hmem⟩

theorem storedPieces_eq (h : Represents s m writer) {id : StoreId} {record : ContentRecord}
    (hrecord : m.stores.record? id = some record) :
    s.storedPieces id (writer id) = pieces s.config record := by
  refine ChunkedStore.storedPieces_eq (h.storable id record hrecord).cut.numbered ?_
  rintro key doc rfl _
  exact h.find_chunk_iff hrecord doc

/-- Every committed record can be read. -/
theorem readRecord_eq (h : Represents s m writer) {id : StoreId} {record : ContentRecord}
    (hrecord : m.stores.record? id = some record) :
    readRecord id (descriptionOf s.config (writer id) record) (s.storedPieces id (writer id))
      = .ok record := by
  rw [h.storedPieces_eq hrecord]
  exact (h.storable id record hrecord).readRecord_eq (writer id)

/-- The slots of a store that stands for slot maps are theirs. -/
theorem storeSlot_eq (h : Represents s m writer) (id : StoreId) :
    s.storeSlot id = .ok (m.stores.get? id) := by
  rw [storeSlot, h.stores]
  cases hslot : m.stores.get? id with
  | none => rfl
  | some slot =>
    cases slot with
    | reserved lease => rfl
    | committed record =>
      have hrecord : m.stores.record? id = some record := SlotMap.record?_of_get? hslot
      change (readRecord id (descriptionOf s.config (writer id) record)
        (s.storedPieces id (writer id))).map _ = _
      rw [h.readRecord_eq hrecord]
      rfl

theorem fileSlot_eq (h : Represents s m writer) (id : FileId) :
    s.fileSlot id = m.files.get? id := by
  rw [fileSlot, h.files]
  cases m.files.get? id with
  | none => rfl
  | some slot => cases slot <;> rfl

/-! ## Reads, seen as reads of slots -/

theorem getStore (h : Represents s m writer) (id : StoreId) :
    (ChunkedStore.getStore id).unclocked s = (.ok (m.stores.record? id), s) := by
  refine (getStore_eq s id).trans ?_
  rw [h.meta?_eq]
  cases hrecord : m.stores.record? id with
  | none => rfl
  | some record =>
    change ((readRecord id (descriptionOf s.config (writer id) record)
      (s.storedPieces id (writer id))).map some, s) = _
    rw [h.readRecord_eq hrecord]
    rfl

theorem matchHash (h : Represents s m writer) (hash : UInt32) :
    (ChunkedStore.matchHash hash).unclocked s = (.ok (m.matchHash hash), s) := by
  refine (matchHash_eq s hash).trans ?_
  refine congrArg (fun records => (Except.ok records, s)) ?_
  unfold MemoryStore.matchHash SlotMap.recordsWhere committed Collection.scanFrom
  rw [OrderedMap.run_eq_filter (StoreId.isRun_hash hash), OrderedMap.entries_eq_map h.stores,
    List.filter_map, List.filterMap_map, List.filterMap_filterMap, List.filterMap_filter]
  refine List.filterMap_congr ?_
  rintro ⟨id, slot⟩ hmem
  have hslot : m.stores.get? id = some slot := (OrderedMap.mem_entries_iff m.stores id slot).mp hmem
  simp only [Function.comp_apply]
  refine if_congr Iff.rfl ?_ rfl
  cases slot with
  | reserved lease => rfl
  | committed record =>
    have hrecord : m.stores.record? id = some record := SlotMap.record?_of_get? hslot
    change (readRecord id (descriptionOf s.config (writer id) record)
      (s.storedPieces id (writer id))).toOption = some record
    rw [h.readRecord_eq hrecord]
    rfl

end Represents

end ChunkedStore

end ContentVault
