import ContentVault.Proofs.History.Chronicle
import ContentVault.Proofs.Store.Matching
import ContentVault.Proofs.Store.Wholeness
set_option autoImplicit false

/-!
# Damage to chunks

Whatever stands in the collections, a committed blob is read exactly if it is whole.  Used by one
client at a time a store keeps every committed blob whole, so that any change to the numbers or
to the total length of its chunks is noticed when it is read, and only then.
-/

namespace ContentVault

namespace ChunkedStore

/-- What a read of a committed blob answers: the content of its chunks if they are whole, and
otherwise that they are corrupt.  Other chunks do not matter. -/
structure ReadsExactly (s : ChunkedStore) (id : StoreId) (m : StoreMeta) : Prop where
  reads_iff : (∃ record, Backend.getStore id s = (.ok (some record), s)) ↔ s.Whole id m
  content : s.Whole id m →
    Backend.getStore id s = (.ok (some (m.toRecord id (s.contentOf id m))), s)
  corrupt : ¬s.Whole id m → ∃ reason, Backend.getStore id s = (.error (.corruptData reason), s)
  own_chunks : ∀ t : ChunkedStore, t.meta? id = some m →
    (∀ i, t.chunks.find ⟨id, m.writer, i⟩ = s.chunks.find ⟨id, m.writer, i⟩) →
    (Backend.getStore id t).1 = (Backend.getStore id s).1

theorem readsExactly {s : ChunkedStore} {id : StoreId} {m : StoreMeta}
    (hm : s.meta? id = some m) : ReadsExactly s id m := by
  refine ⟨(whole_iff_exists_getStore hm).symm, fun h => h.getStore hm,
    fun h => getStore_of_not_whole h hm, fun t ht hchunks => ?_⟩
  refine getStore_congr (ht.trans hm.symm) fun m' hm' => ?_
  cases hm.symm.trans hm'
  exact hchunks

/-! ## Damage -/

/-- The stores differ in nothing but the chunks of one writer of a blob. -/
structure SameBut (s t : ChunkedStore) (id : StoreId) (writer : UInt64) : Prop where
  stores : ∀ id', t.stores.find id' = s.stores.find id'
  chunks : ∀ key : ChunkKey, ¬(key.store = id ∧ key.writer = writer) →
    t.chunks.find key = s.chunks.find key

/-- What may have happened to the chunks of a writer of a blob: one is lost, there is one more, or
they hold more or fewer bytes. -/
inductive Damage (s t : ChunkedStore) (id : StoreId) (writer : UInt64) : Prop where
  | lost (i : UInt32) (hthere : (s.chunks.find ⟨id, writer, i⟩).isSome = true)
      (hgone : t.chunks.find ⟨id, writer, i⟩ = none)
  | surplus (i : UInt32) (hnone : s.chunks.find ⟨id, writer, i⟩ = none)
      (hadded : (t.chunks.find ⟨id, writer, i⟩).isSome = true)
  | resized (hlength : t.storedLength id writer ≠ s.storedLength id writer)

/-- Damage to the chunks of a writer of a blob is found when the blob is read; other blobs are read
as before. -/
structure NoticesDamage (s : ChunkedStore) (id : StoreId) (writer : UInt64) : Prop where
  corrupt : ∀ t, SameBut s t id writer → Damage s t id writer →
    ∃ reason, Backend.getStore id t = (.error (.corruptData reason), t)
  others : ∀ t, SameBut s t id writer → ∀ id', id' ≠ id →
    (Backend.getStore id' t).1 = (Backend.getStore id' s).1

section

variable {s t : ChunkedStore} {id : StoreId} {m : StoreMeta}

theorem SameBut.meta?_eq {writer : UInt64} (h : SameBut s t id writer) (id' : StoreId) :
    t.meta? id' = s.meta? id' := by
  rw [meta?, meta?, h.stores]

theorem SameBut.sameApart {writer : UInt64} (h : SameBut s t id writer) : SameApart s t id :=
  ⟨fun id' _ => h.stores id', fun key hne => h.chunks key fun hkey => hne hkey.1⟩

/-- A chunk that is taken away is one of its writer. -/
theorem SameBut.drop (s : ChunkedStore) (key : ChunkKey) :
    SameBut s { s with chunks := s.chunks.drop key } key.store key.writer := by
  refine ⟨fun _ => rfl, fun key' hne => ?_⟩
  refine (s.chunks.find_drop key key').trans (if_neg ?_)
  rintro rfl
  exact hne ⟨rfl, rfl⟩

/-- What was whole is not whole any more after damage. -/
theorem Whole.not_of_damage (h : s.Whole id m) (hdamage : Damage s t id m.writer) :
    ¬t.Whole id m := by
  intro h'
  cases hdamage with
  | lost i hthere hgone =>
    have hpresent := (h'.present_iff i).mpr ((h.present_iff i).mp hthere)
    rw [hgone] at hpresent
    cases hpresent
  | surplus i hnone hadded =>
    have hpresent := (h.present_iff i).mpr ((h'.present_iff i).mp hadded)
    rw [hnone] at hpresent
    cases hpresent
  | resized hlength =>
    exact hlength (h'.length_eq.trans h.length_eq.symm)

theorem Whole.noticesDamage (h : s.Whole id m) (hm : s.meta? id = some m) :
    NoticesDamage s id m.writer where
  corrupt _ hsame hdamage :=
    getStore_of_not_whole (h.not_of_damage hdamage) ((hsame.meta?_eq id).trans hm)
  others _ hsame _ hne := hsame.sameApart.getStore_eq hne

/-- In a store that stands for slots every committed blob is whole. -/
theorem Represents.whole {b : MemoryStore} {writer : StoreId → UInt64} (h : Represents s b writer)
    (hm : s.meta? id = some m) : s.Whole id m := by
  have hread := hm
  rw [h.meta?_eq] at hread
  obtain ⟨record, hrecord, _⟩ := Option.map_eq_some_iff.mp hread
  rw [whole_iff_exists_getStore hm]
  refine ⟨record, ?_⟩
  have hget : Backend.getStore id s = (.ok (b.stores.record? id), s) := h.getStore id
  rw [hget, hrecord]

end

/-- A committed blob is read exactly if the numbers of its writer's chunks are those below the
count in its document and their bytes are as many as the document says; then the content is theirs
in the order of their numbers, and otherwise the data is called corrupt.  If chunks of its writer
are lost or added, or are longer or shorter in all, a blob that was whole is found to be corrupt,
and other blobs are read as before.  After any deeds every committed blob is whole. -/
theorem corruption_is_noticed {config : ChunkedConfig} {created : ChunkedStore}
    (hcreate : ChunkedStore.create config = .ok created) :
    (∀ (s : ChunkedStore) (id : StoreId) (m : StoreMeta), s.meta? id = some m →
      ReadsExactly s id m ∧ (s.Whole id m → NoticesDamage s id m.writer)) ∧
    ∀ deeds : List ((α : Type) × Deed α),
      let s := ((Chronicle.start created).run deeds).backend
      ∀ (id : StoreId) (m : StoreMeta), s.meta? id = some m →
        s.Whole id m ∧ NoticesDamage s id m.writer := by
  refine ⟨fun s id m hm => ⟨readsExactly hm, fun h => h.noticesDamage hm⟩, ?_⟩
  intro deeds s id m hm
  obtain ⟨⟨b, hb⟩, _⟩ := Chronicle.tells_inChunks hcreate deeds
  obtain ⟨_, writer, hrep⟩ := hb.models
  have hwhole : s.Whole id m := hrep.whole hm
  exact ⟨hwhole, hwhole.noticesDamage hm⟩

/-- The last of three chunks is lost, which leaves the others without a gap; a neighbour of the same
checksum is still read. -/
theorem corruption_is_noticed_of_lost_tail :
    let config : ChunkedConfig := ⟨2, 128, 1⟩
    let commit (id : StoreId) (content : Bytes) (h : content.length < UInt64.size) : Deed Unit :=
      .commitStore ⟨id, ⟨1, 100⟩⟩ (.fresh id content "text/plain" 5) h (.still 5) []
    let deeds : List ((α : Type) × Deed α) :=
      [⟨_, .standing (.claimStore ⟨7, 0⟩ ⟨1, 100⟩ 5)⟩,
       ⟨_, commit ⟨7, 0⟩ [1, 2, 3, 4, 5] (by decide)⟩,
       ⟨_, .standing (.claimStore ⟨7, 1⟩ ⟨1, 100⟩ 5)⟩,
       ⟨_, commit ⟨7, 1⟩ [6, 7, 8] (by decide)⟩]
    let s := ((Chronicle.start (ChunkedStore.empty config)).run deeds).backend
    let t : ChunkedStore := { s with chunks := s.chunks.drop ⟨⟨7, 0⟩, 1, 2⟩ }
    ChunkedStore.create config = .ok (.empty config) ∧
      s.meta? ⟨7, 0⟩ = some ⟨"text/plain", 5, .inProgress, 5, 3, 1⟩ ∧
      SameBut s t ⟨7, 0⟩ 1 ∧ Damage s t ⟨7, 0⟩ 1 ∧
      (∃ reason, Backend.getStore ⟨7, 0⟩ t = (.error (.corruptData reason), t)) ∧
      (Backend.getStore ⟨7, 1⟩ t).1 = .ok (some (.fresh ⟨7, 1⟩ [6, 7, 8] "text/plain" 5)) := by
  intro config commit deeds s t
  have hcreate : ChunkedStore.create config = .ok (.empty config) := rfl
  have hm : s.meta? ⟨7, 0⟩ = some ⟨"text/plain", 5, .inProgress, 5, 3, 1⟩ := by decide +kernel
  have hsame : SameBut s t ⟨7, 0⟩ 1 := SameBut.drop s ⟨⟨7, 0⟩, 1, 2⟩
  have hdamage : Damage s t ⟨7, 0⟩ 1 := .lost 2 (by decide +kernel) (by decide +kernel)
  have hm' : s.meta? ⟨7, 1⟩ = some ⟨"text/plain", 5, .inProgress, 3, 2, 1⟩ := by decide +kernel
  have hcontent : s.contentOf ⟨7, 1⟩ ⟨"text/plain", 5, .inProgress, 3, 2, 1⟩ = [6, 7, 8] := by
    decide +kernel
  obtain ⟨hreads, hreached⟩ := corruption_is_noticed hcreate
  obtain ⟨_, hnotices⟩ := hreached deeds ⟨7, 0⟩ _ hm
  obtain ⟨hwhole, _⟩ := hreached deeds ⟨7, 1⟩ _ hm'
  refine ⟨hcreate, hm, hsame, hdamage, hnotices.corrupt t hsame hdamage, ?_⟩
  rw [hnotices.others t hsame ⟨7, 1⟩ (by decide),
    (hreads s ⟨7, 1⟩ _ hm').1.content hwhole, hcontent]
  rfl

end ChunkedStore

end ContentVault
