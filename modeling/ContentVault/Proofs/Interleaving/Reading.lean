import ContentVault.Proofs.Interleaving.Quiet
set_option autoImplicit false

/-!
# Reading while others write

A reader looks at the description of a blob and then at its chunks.  What it finds are
pieces of the draft of the writer that the description names.  There may be fewer of them
than there should be, but then the reader notices; as many as there should be are the whole
draft.
-/

namespace ContentVault.Interleaving

/-- What can be read from chunks of the writer whom a description names is a copy of the only
payload that was committed. -/
theorem Sound.readRecord {y : View} (hy : Sound y) {id : StoreId} {m : StoreMeta} {status : Status}
    (hmeta : y.store.meta? id = some { m with status }) {pieces : List Chunk}
    (hpieces : ∀ c ∈ pieces, ∃ key doc, y.store.chunks.find key = some doc ∧ key.store = id ∧
      key.writer = m.writer ∧ doc.toChunk key = c)
    {record : ContentRecord} (h : ChunkedStore.readRecord id m pieces = .ok record) :
    record.id = id ∧ ∃ payload, winners id y.history = [payload] ∧ IsCopy record payload := by
  obtain ⟨d, hauthor, hdescribes, hwinners⟩ := hy.described id _ hmeta
  obtain ⟨content, hassemble, rfl⟩ := ChunkedStore.readRecord_eq_ok h
  obtain ⟨hcount, hok⟩ := ChunkedStore.assemble_eq_ok hassemble
  have hmem : ∀ c ∈ pieces, c ∈ d.pieces := by
    intro c hc
    obtain ⟨key, doc, hfind, hid, hwriter, rfl⟩ := hpieces c hc
    obtain ⟨d', hauthor', hpiece⟩ := hy.authored key doc hfind
    rw [hid, hwriter, hauthor] at hauthor'
    cases hauthor'
    exact hpiece
  have hcontent : content = d.record.content := by
    rw [← d.cut.flatMap_data]
    exact d.cut.numbered.eq_of_reassemble hmem (hcount.trans hdescribes.chunkCount) hok
  exact ⟨rfl, d.record, hwinners, hcontent, hdescribes.contentType, hdescribes.fileSize⟩

/-! ## Reading one blob -/

theorem safe_getStore (id : StoreId) {post : Except StoreError (Option ContentRecord) → View → Prop}
    {x : View} (hx : Sound x)
    (hpost : ∀ answer y, Sound y → Genuine y.history ⟨.getStore id, answer⟩ → post answer y) :
    Safe none post (ChunkedStore.getStore id) x := by
  have hnothing : ∀ answer, (∀ record, answer ≠ .ok (some record)) → ∀ y, Sound y →
      post answer y := by
    intro answer hanswer y hy
    refine hpost answer y hy fun record hrecord => ?_
    rcases answer with e | _ | record'
    · cases hrecord
    · cases hrecord
    · exact absurd rfl (hanswer record')
  refine Safe.look hx (fun _ => rfl) fun y hy _ _ => ?_
  dsimp only [Program.done_bind]
  split
  · exact hnothing _ (fun _ h => by cases h) y hy
  next m hm =>
    refine Safe.look hy (fun _ => rfl) fun z hz hyz _ => ?_
    obtain ⟨status, hmeta⟩ := hyz.grows id m hm
    dsimp only [Program.done_bind]
    split
    · exact hnothing _ (fun _ h => by cases h) z hz
    next record hrecord =>
      refine hpost _ z hz fun record' hrecord' => ?_
      rw [List.mem_singleton.mp hrecord']
      have hcopy := hz.readRecord hmeta ?_ hrecord
      · exact ⟨hcopy.1, hcopy.1 ▸ hcopy.2⟩
      · intro c hc
        obtain ⟨⟨key, doc⟩, hfound, rfl⟩ := List.mem_map.mp hc
        obtain ⟨hfind, hid, hwriter⟩ :=
          (ChunkedStore.mem_scan_writer_iff z.store id m.writer key doc).mp hfound
        exact ⟨key, doc, hfind, hid, hwriter, rfl⟩

/-! ## Reading the blobs of a checksum -/

theorem safe_matchHash (hash : UInt32)
    {post : Except StoreError (List ContentRecord) → View → Prop} {x : View} (hx : Sound x)
    (hpost : ∀ answer y, Sound y → Genuine y.history ⟨.matchHash hash, answer⟩ → post answer y) :
    Safe none post (ChunkedStore.matchHash hash) x := by
  refine Safe.look hx (fun _ => rfl) fun y hy _ _ => ?_
  have hblobs := ChunkedStore.mem_committed_scan_iff y.store hash
  generalize hread : ChunkedStore.committed
    (y.store.stores.scanFrom ⟨hash, 0⟩ fun id => id.hash == hash) = blobs at hblobs
  change Safe none post (if (ChunkedStore.committed
    (y.store.stores.scanFrom ⟨hash, 0⟩ fun id => id.hash == hash)).isEmpty then _ else _) y
  rw [hread]
  split
  · exact hpost _ y hy fun _ hrecord => by cases hrecord
  · refine Safe.look hy (fun _ => rfl) fun z hz hyz _ => ?_
    refine hpost _ z hz fun record hrecord => ?_
    obtain ⟨id, m, hblob, hok⟩ := (ChunkedStore.mem_readable_iff _ _ record).mp hrecord
    obtain ⟨hm, hhash⟩ := (hblobs id m).mp hblob
    obtain ⟨status, hmeta⟩ := hyz.grows id m hm
    have hcopy := hz.readRecord hmeta ?_ hok
    · exact ⟨hcopy.1 ▸ hhash, hcopy.1 ▸ hcopy.2⟩
    · intro c hc
      obtain ⟨key, doc, m', hfound, hblob', hid, hwriter, rfl⟩ :=
        ChunkedStore.exists_of_mem_piecesOf hc
      obtain ⟨hfind, _⟩ := (Collection.mem_scanFrom_iff (ChunkKey.isRun_hash hash)
        z.store.chunks key doc).mp hfound
      -- The descriptions are those of one moment, so each identifier has one.
      have hsame : m' = m := Option.some.inj (((hblobs id m').mp hblob').1.symm.trans hm)
      exact ⟨key, doc, hfind, hid, hsame ▸ hwriter, rfl⟩

end ContentVault.Interleaving
