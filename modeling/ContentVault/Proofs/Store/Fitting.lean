import ContentVault.Proofs.Store.Settings
set_option autoImplicit false

/-!
# What fits the settings

Whether a chunked store takes a record under a live lease depends on its settings and on the
record alone: on the number of its chunks, on the size of the longest of them, and on that of its
document.  The identifier and the token of the lease do not matter.
-/

namespace ContentVault

/-- The record has few enough chunks, and none of its documents is too large. -/
structure ChunkedConfig.Fits (config : ChunkedConfig) (record : ContentRecord) : Prop where
  count_lt : Chunk.countFor record.content.length config.chunkSize.toNat < UInt32.size
  chunk_le : 26 + min record.content.length config.chunkSize.toNat ≤ config.maxRecordBytes.toNat
  document_le : 44 + record.contentType.utf8ByteSize + encodedSize record.status
    ≤ config.maxRecordBytes.toNat

instance (config : ChunkedConfig) (record : ContentRecord) : Decidable (config.Fits record) :=
  decidable_of_iff (_ ∧ _ ∧ _)
    ⟨fun ⟨hcount, hchunk, hdocument⟩ => ⟨hcount, hchunk, hdocument⟩,
      fun h => ⟨h.count_lt, h.chunk_le, h.document_le⟩⟩

/-- Under accepted settings there is room for a reservation of a blob, which takes 24 bytes. -/
theorem ChunkedConfig.reservation_le {config : ChunkedConfig} (hvalid : config.validate = .ok ())
    (id : StoreId) (lease : Lease) :
    encodedSize (Entry.reserved id lease : StoreDoc) ≤ config.maxRecordBytes.toNat := by
  obtain ⟨_, hroom, _⟩ := config.validate_eq_ok_iff.mp hvalid
  change 24 ≤ _
  omega

namespace ChunkedStore

/-- A chunk takes 26 bytes beside its data. -/
theorem encodedSize_chunkDoc (doc : ChunkDoc) : encodedSize doc = 26 + doc.data.length := by
  change 4 + 2 + 8 + 4 + (8 + doc.data.length) = _
  omega

/-- The document of a committed record takes 44 bytes beside its texts. -/
theorem encodedSize_committedDoc (r : Reservation StoreId) (record : ContentRecord) (count : Nat) :
    encodedSize (committedDoc r record count)
      = 44 + record.contentType.utf8ByteSize + encodedSize record.status := by
  change 4 + 2 + 1 + (1 + (8 + record.contentType.utf8ByteSize + 8 + encodedSize record.status
    + 8 + 4 + 8)) = _
  omega

/-- The first chunk of a cut payload is the longest. -/
theorem exists_longest_chunk {payload : Bytes} {size : Nat} {cut : List Chunk}
    (h : Chunk.split payload size = .ok cut) (hsize : size ≠ 0) (hpayload : payload ≠ []) :
    ∃ c ∈ cut, c.data.length = min payload.length size := by
  have hpositive : 0 < payload.length := List.length_pos_iff.mpr hpayload
  have hcount : 0 < Chunk.countFor payload.length size := by
    rw [Chunk.countFor]
    exact Nat.div_pos (by omega) (Nat.pos_of_ne_zero hsize)
  have hfirst := Chunk.split_getElem? h 0
  rw [if_pos hcount] at hfirst
  refine ⟨_, List.mem_of_getElem? hfirst, ?_⟩
  rw [Chunk.slice, Nat.mul_zero, List.drop_zero, List.length_take, Nat.min_comm]

section

variable {s : ChunkedStore} {m : MemoryStore} {config : ChunkedConfig} {r : Reservation StoreId}
  {record : ContentRecord}

/-- What is committed fits. -/
theorem fits_of_takes (husable : Usable config) (hbare : s.bare = empty config)
    {after : ChunkedStore} (h : Takes s m r record after) : config.Fits record := by
  obtain ⟨cut, hsplit, hsmall, hdocument⟩ := h.fits
  rw [config_eq_of_bare hbare] at hsplit
  rw [stores_limit_of_bare hbare, encodedSize_committedDoc] at hdocument
  have hsize : config.chunkSize.toNat ≠ 0 := fun hzero =>
    husable.chunkSize_ne (UInt64.toNat_inj.mp hzero)
  refine ⟨?_, ?_, hdocument⟩
  · have hcut := Chunk.IsCut.of_split hsplit
    exact hcut.length_eq ▸ hcut.numbered.length_lt
  · by_cases hempty : record.content = []
    · rw [hempty, List.length_nil, Nat.zero_min]
      omega
    · obtain ⟨c, hc, hlongest⟩ := exists_longest_chunk hsplit hsize hempty
      have hle := hsmall _ (List.mem_map_of_mem hc)
      rw [chunks_limit_of_bare hbare, encodedSize_chunkDoc] at hle
      exact hlongest ▸ hle

/-- What is refused does not fit; too many chunks are told from documents that are too large. -/
theorem not_fits_of_refuses (husable : Usable config) (hbare : s.bare = empty config)
    {e : StoreError} (h : Refuses s r record e) :
    ¬config.Fits record ∧
      e.name = if Chunk.countFor record.content.length config.chunkSize.toNat < UInt32.size
        then "RecordTooLarge" else "Codec/TooManyChunks" := by
  have hsize : config.chunkSize.toNat ≠ 0 := fun hzero =>
    husable.chunkSize_ne (UInt64.toNat_inj.mp hzero)
  have hfew : ∀ {cut}, Chunk.split record.content s.config.chunkSize.toNat = .ok cut →
      Chunk.countFor record.content.length config.chunkSize.toNat < UInt32.size := by
    intro cut hsplit
    rw [config_eq_of_bare hbare] at hsplit
    have hcut := Chunk.IsCut.of_split hsplit
    exact hcut.length_eq ▸ hcut.numbered.length_lt
  cases h with
  | count hsplit =>
    rw [config_eq_of_bare hbare] at hsplit
    obtain ⟨rfl, hmany⟩ := Chunk.split_error hsize hsplit
    rw [if_neg (Nat.not_lt.mpr hmany)]
    exact ⟨fun hfits => Nat.not_lt.mpr hmany hfits.count_lt, rfl⟩
  | chunk hsplit hlarge =>
    rw [if_pos (hfew hsplit)]
    obtain ⟨entry, hentry, hlt, rfl⟩ := hlarge
    obtain ⟨c, hc, rfl⟩ := List.mem_map.mp hentry
    refine ⟨fun hfits => ?_, rfl⟩
    have hcut := Chunk.IsCut.of_split hsplit
    rw [config_eq_of_bare hbare] at hcut
    rw [chunks_limit_of_bare hbare, encodedSize_chunkDoc] at hlt
    have hdata : c.data.length ≤ min record.content.length config.chunkSize.toNat :=
      Nat.le_min.mpr ⟨hcut.length_data_le hc, hcut.data_length_le c hc⟩
    have hle := hfits.chunk_le
    change _ < 26 + c.data.length at hlt
    omega
  | document hsplit hlt =>
    rw [if_pos (hfew hsplit)]
    rw [stores_limit_of_bare hbare, encodedSize_committedDoc] at hlt
    exact ⟨fun hfits => Nat.not_lt.mpr hfits.document_le hlt, rfl⟩

/-- A record that fits is taken from whoever holds the lease at both looks at the clock. -/
theorem commit_of_fits (h : Models s m) (hbare : s.bare = empty config) (schedule : List Nat)
    (clock : Clock) (hid : record.id = r.id) (hlength : record.content.length < UInt64.size)
    (hfits : config.Fits record) (hheld : ∀ now, Shows clock now → m.stores.holds r now = true) :
    ∃ after clock', (commit config schedule r record).alone ⟨s, clock⟩
        = (.ok (), ⟨after, clock'⟩) ∧
      Takes s m r record after := by
  obtain ⟨husable, writer, hrep⟩ := h
  obtain ⟨clock', now, out, hshows, hcommit, hends⟩ :=
    hrep.commit_ends husable schedule r record hlength clock
  rw [config_eq_of_bare hbare] at husable hcommit
  cases hends with
  | mismatch hne => exact absurd hid hne
  | notReserved _ hfree => cases (hheld now hshows).symm.trans hfree
  | refused _ _ he => exact absurd hfits (not_fits_of_refuses husable hbare he).1
  | taken _ _ hafter => exact ⟨_, clock', hcommit, hafter⟩

end

end ChunkedStore

end ContentVault
