import ContentVault.Proofs.Content.Completeness
import ContentVault.Proofs.Store.Reads
set_option autoImplicit false

/-!
# Whole blobs

The chunks of a committed blob are whole if their numbers are those below the count in its
document and their bytes are as many as the document says.  A whole blob is read as what its
chunks hold; any other is found to be corrupt.
-/

namespace ContentVault.ChunkedStore

/-! ## The chunks of a writer -/

/-- How many bytes the chunks of a writer hold. -/
def storedLength (s : ChunkedStore) (id : StoreId) (writer : UInt64) : Nat :=
  ((s.chunks.records.entries.filter fun (key, _) => key.store == id && key.writer == writer).flatMap
    fun (_, doc) => doc.data).length

/-- The bytes of the chunk that has a number; none if there is no such chunk. -/
def chunkData (s : ChunkedStore) (id : StoreId) (writer : UInt64) (i : Nat) : Bytes :=
  ((s.chunks.find ⟨id, writer, UInt32.ofNat i⟩).map (·.data)).getD []

/-- The bytes of as many chunks as the description of a blob counts, in the order of their
numbers. -/
def contentOf (s : ChunkedStore) (id : StoreId) (m : StoreMeta) : Bytes :=
  (List.range m.chunkCount.toNat).flatMap (s.chunkData id m.writer)

/-- The chunks of a blob are those that its description promises: one for each number below the
count, with as many bytes in all. -/
structure Whole (s : ChunkedStore) (id : StoreId) (m : StoreMeta) : Prop where
  present_iff : ∀ i : UInt32, (s.chunks.find ⟨id, m.writer, i⟩).isSome = true ↔ i < m.chunkCount
  length_eq : s.storedLength id m.writer = m.compressedLength.toNat

section

variable (s : ChunkedStore) (id : StoreId) (writer : UInt64)

theorem storedLength_eq :
    s.storedLength id writer = ((s.storedPieces id writer).flatMap (·.data)).length := by
  rw [storedLength, storedPieces, Collection.scanFrom,
    OrderedMap.run_eq_filter (ChunkKey.isRun_writer id writer), List.flatMap_map]
  rfl

/-- No number comes twice among the chunks of a writer. -/
theorem nodup_numbers_storedPieces : (Chunk.numbers (s.storedPieces id writer)).Nodup := by
  rw [Chunk.numbers, storedPieces, List.map_map,
    List.nodup_map_iff_inj_on (s.scan_writer_pairwise id writer).nodup]
  rintro ⟨key, doc⟩ hmem ⟨key', doc'⟩ hmem' hindex
  obtain ⟨hfind, rfl, rfl⟩ := (mem_scan_writer_iff s id writer key doc).mp hmem
  obtain ⟨hfind', hstore, hwriter⟩ := (mem_scan_writer_iff s _ _ key' doc').mp hmem'
  have hkey : key = key' := by
    cases key
    cases key'
    simp only [ChunkKey.mk.injEq]
    exact ⟨hstore.symm, hwriter.symm, UInt32.toNat_inj.mp hindex⟩
  subst hkey
  rw [Option.some.inj (hfind.symm.trans hfind')]

theorem mem_numbers_storedPieces_iff (i : UInt32) :
    i.toNat ∈ Chunk.numbers (s.storedPieces id writer) ↔
      (s.chunks.find ⟨id, writer, i⟩).isSome = true := by
  rw [Chunk.numbers, List.mem_map, Option.isSome_iff_exists]
  constructor
  · rintro ⟨c, hc, hindex⟩
    obtain ⟨doc, hdoc, _⟩ := Option.map_eq_some_iff.mp ((s.mem_storedPieces_iff id writer c).mp hc)
    rw [UInt32.toNat_inj.mp hindex] at hdoc
    exact ⟨doc, hdoc⟩
  · rintro ⟨doc, hdoc⟩
    exact ⟨⟨i, doc.data⟩, (s.mem_storedPieces_iff id writer _).mpr (by simp [hdoc]), rfl⟩

/-- As many pieces as are counted are complete exactly if there is one for each number below the
count. -/
theorem isComplete_storedPieces_iff (count : UInt32) :
    (s.storedPieces id writer).length = count.toNat ∧ Chunk.IsComplete (s.storedPieces id writer) ↔
      ∀ i, (s.chunks.find ⟨id, writer, i⟩).isSome = true ↔ i < count := by
  simp only [← mem_numbers_storedPieces_iff, UInt32.lt_iff_toNat_lt]
  constructor
  · rintro ⟨hlength, hcomplete⟩ i
    rw [hcomplete.mem_iff, hlength, List.mem_range]
  · intro h
    have hbelow : ∀ i,
        i ∈ Chunk.numbers (s.storedPieces id writer) ↔ i ∈ List.range count.toNat := by
      intro i
      rw [List.mem_range]
      by_cases hi : i < UInt32.size
      · have hnumber := h (UInt32.ofNat i)
        rwa [UInt32.toNat_ofNat', Nat.mod_eq_of_lt hi] at hnumber
      · constructor
        · intro hmem
          obtain ⟨c, _, rfl⟩ := List.mem_map.mp hmem
          exact absurd c.index.toNat_lt hi
        · intro hlt
          exact absurd (hlt.trans count.toNat_lt) hi
    have hperm := (List.perm_ext_iff_of_nodup (s.nodup_numbers_storedPieces id writer)
      List.nodup_range).mpr hbelow
    have hlength : (s.storedPieces id writer).length = count.toNat := by
      simpa using hperm.length_eq
    rw [Chunk.IsComplete, hlength]
    exact ⟨rfl, hperm⟩

end

/-! ## Reading a blob -/

variable {s : ChunkedStore} {id : StoreId} {m : StoreMeta}

/-- Pieces that are counted and complete hold the content. -/
theorem joined_storedPieces (hlength : (s.storedPieces id m.writer).length = m.chunkCount.toNat)
    (hcomplete : Chunk.IsComplete (s.storedPieces id m.writer)) :
    Chunk.joined (s.storedPieces id m.writer) = s.contentOf id m := by
  rw [Chunk.joined, contentOf, hlength]
  refine List.flatMap_congr fun i hi => ?_
  rw [← hlength] at hi
  obtain ⟨c, hc, rfl⟩ := List.mem_map.mp (hcomplete.mem_iff.mpr hi)
  rw [Chunk.dataOf_of_mem hcomplete.nodup hc, chunkData, UInt32.ofNat_toNat,
    (s.mem_storedPieces_iff id m.writer c).mp hc, Option.getD_some]

theorem Whole.assemble_eq (h : s.Whole id m) :
    assemble id m (s.storedPieces id m.writer) = .ok (s.contentOf id m) := by
  obtain ⟨hlength, hcomplete⟩ := (s.isComplete_storedPieces_iff id m.writer _).mpr h.present_iff
  have htotal : (s.contentOf id m).length = m.compressedLength.toNat := by
    rw [← joined_storedPieces hlength hcomplete, hcomplete.length_joined, ← storedLength_eq,
      h.length_eq]
  rw [assemble, if_neg (not_not.mpr hlength), hcomplete.reassemble_eq,
    joined_storedPieces hlength hcomplete]
  simp only [htotal, ne_eq, not_true_eq_false, if_false]

theorem Whole.of_assemble {content : Bytes}
    (h : assemble id m (s.storedPieces id m.writer) = .ok content) : s.Whole id m := by
  obtain ⟨hlength, hreassemble⟩ := assemble_eq_ok h
  have hbound : (s.storedPieces id m.writer).length ≤ UInt32.size := by
    rw [hlength]
    exact Nat.le_of_lt m.chunkCount.toNat_lt
  have hcomplete := (Chunk.isComplete_iff_exists_reassemble hbound).mpr ⟨content, hreassemble⟩
  refine ⟨(s.isComplete_storedPieces_iff id m.writer _).mp ⟨hlength, hcomplete⟩, ?_⟩
  rw [storedLength_eq, ← hcomplete.length_joined]
  rw [assemble, if_neg (not_not.mpr hlength), hcomplete.reassemble_eq] at h
  simp only at h
  split at h
  · cases h
  next htotal => exact not_not.mp htotal

/-- A whole blob is read as what its chunks hold. -/
theorem Whole.getStore (h : s.Whole id m) (hm : s.meta? id = some m) :
    Backend.getStore id s = (.ok (some (m.toRecord id (s.contentOf id m))), s) := by
  rw [getStore_eq, hm]
  simp only [readRecord, h.assemble_eq]
  rfl

/-- A blob that is not whole is corrupt. -/
theorem getStore_of_not_whole (h : ¬s.Whole id m) (hm : s.meta? id = some m) :
    ∃ reason, Backend.getStore id s = (.error (.corruptData reason), s) := by
  simp only [getStore_eq, hm]
  cases hread : readRecord id m (s.storedPieces id m.writer) with
  | error e =>
    obtain ⟨reason, rfl⟩ := readRecord_error hread
    exact ⟨reason, rfl⟩
  | ok record =>
    obtain ⟨content, hcontent, _⟩ := readRecord_eq_ok hread
    exact absurd (Whole.of_assemble hcontent) h

/-- Only what is read is whole. -/
theorem whole_iff_exists_getStore (hm : s.meta? id = some m) :
    s.Whole id m ↔ ∃ record, Backend.getStore id s = (.ok (some record), s) := by
  constructor
  · exact fun h => ⟨_, h.getStore hm⟩
  · rintro ⟨record, hrecord⟩
    by_contra h
    obtain ⟨reason, herror⟩ := getStore_of_not_whole h hm
    rw [hrecord] at herror
    cases herror

end ContentVault.ChunkedStore
