import ContentVault.Proofs.Store.Contents
import ContentVault.Proofs.Store.Vacating
import ContentVault.Proofs.Vault.Amid
set_option autoImplicit false

/-!
# Chunks on view

A chunked store keeps contents in documents of their own; memory needs none.  There are only
those of committed blobs, and whatever is asked of the backend, a blob that is committed stays
committed and its documents are left alone.
-/

namespace ContentVault

/-- What the request commits fits into the memory of a machine. -/
def Request.Fits : {α : Type} → Request α → Prop
  | _, .commitStore _ _ record => record.content.length < UInt64.size
  | _, _ => True

theorem Request.IsLocal.fits {α : Type} {request : Request α} (h : request.IsLocal) :
    request.Fits := by
  cases request with
  | commitStore => exact h.elim
  | _ => trivial

/-- A backend that shows the documents in which contents are kept. -/
class ShowsChunks (σ : Type) [Backend σ] [SlotBackend σ] where
  chunk? : σ → ChunkKey → Option ChunkDoc
  /-- There are none but those of committed blobs. -/
  chunk?_eq_none {b : σ} {m : MemoryStore} (h : SlotBackend.Models b m) {key : ChunkKey}
    (hnone : m.stores.record? key.store = none) : chunk? b key = none
  /-- Whatever is asked, those of a committed blob stay. -/
  chunk?_answer {w : World σ} {m : MemoryStore} (h : SlotBackend.Models w.backend m) {α : Type}
    {request : Request α} (hfits : request.Fits) {key : ChunkKey}
    (hkept : (m.stores.record? key.store).isSome = true) :
    chunk? (World.answer request w).2.backend key = chunk? w.backend key

export ShowsChunks (chunk?)

instance : ShowsChunks MemoryStore where
  chunk? _ _ := none
  chunk?_eq_none _ _ _ := rfl
  chunk?_answer _ _ _ _ _ _ := rfl

/-! ## What becomes of the chunks in a chunked store -/

namespace ChunkedStore

variable {s : ChunkedStore} {m : MemoryStore} {writer : StoreId → UInt64}

/-- A claim leaves the chunks: a blob that may be claimed has none. -/
theorem Represents.chunks_claim (h : Represents s m writer) (id : StoreId) (lease : Lease)
    (now : UInt64) : ((ChunkedStore.claim id lease now).unclocked s).2.chunks = s.chunks := by
  by_cases hclaimed : ((ChunkedStore.claim id lease now).unclocked s).1 = .ok true
  · rw [(h.claim_eq hclaimed).2]
  · rw [unclaimed_claim hclaimed]

/-- Giving a lease up leaves the chunks: a blob under a lease has none. -/
theorem Represents.chunks_release (h : Represents s m writer) (r : Reservation StoreId) :
    ((ChunkedStore.release r).unclocked s).2.chunks = s.chunks := by
  unfold ChunkedStore.release Client.unclocked
  simp only [Client.alone_bind, alone_deleteStore]
  rcases s.stores.deleteIf_cases r.id (·.isLeasedTo r.lease.token)
    with ⟨_, hdel⟩ | ⟨doc, hfind, hleased, hdel⟩
  · simp only [hdel]
    rfl
  · have hnone : m.stores.record? r.id = none := by
      refine SlotMap.record?_eq_none fun record hget => ?_
      rw [h.stores, hget] at hfind
      cases hfind
      cases hleased
    simp only [hdel, if_true, Client.alone_bind, Client.alone_pure, alone_purgeChunks]
    exact congrArg (·.chunks) (h.purged_eq hnone _ _)

/-- A commit leaves the chunks of committed blobs. -/
theorem Represents.find_chunk_commit (h : Represents s m writer) (hconfig : Usable s.config)
    (r : Reservation StoreId) {record : ContentRecord}
    (hlength : record.content.length < UInt64.size) (clock : Clock) {key : ChunkKey}
    (hkept : (m.stores.record? key.store).isSome = true) :
    ((ChunkedStore.commit s.config [] r record).alone ⟨s, clock⟩).2.state.chunks.find key
      = s.chunks.find key := by
  obtain ⟨clock', now, out, _, hcommit, hends⟩ := h.commit_ends hconfig [] r record hlength clock
  rw [hcommit]
  cases hends with
  | mismatch _ => rfl
  | notReserved _ _ => rfl
  | refused _ _ _ => rfl
  | taken _ hheld hafter =>
    refine hafter.others key fun hkey => ?_
    rw [hkey, SlotMap.record?_eq_none fun record hget => ?_] at hkept
    · cases hkept
    · rw [SlotMap.holds, hget] at hheld
      cases hheld

theorem chunks_updateStatus (s : ChunkedStore) (id : StoreId) (status : Status) :
    ((updateStatus id status).unclocked s).2.chunks = s.chunks := by
  unfold updateStatus Client.unclocked
  rw [Client.alone_bind]
  rcases alone_updateStore_cases ⟨s, .still 0⟩ id (fun _ doc => doc.record?.isSome)
      (fun doc => { doc with record? := doc.record?.map fun m => { m with status } })
    with ⟨_, hup⟩ | ⟨_, _, ⟨_, hup⟩ | ⟨_, _, hup⟩ | ⟨_, _, hup⟩⟩
  all_goals
    rw [hup]
    rfl

theorem chunks_commitFile (s : Clocked ChunkedStore) (r : Reservation FileId)
    (file : FileRecord) : (commitFile s r file).2.state.chunks = s.state.chunks := by
  unfold commitFile
  split
  · rfl
  · split
    · rfl
    · rfl

instance : ShowsChunks ChunkedStore where
  chunk? s key := s.chunks.find key
  chunk?_eq_none := by
    rintro s m ⟨_, writer, h⟩ key hnone
    exact h.find_chunk_eq_none hnone
  chunk?_answer := by
    intro w m hmodels α request hfits key hkept
    obtain ⟨hconfig, writer, h⟩ := hmodels
    by_cases hlocal : request.IsLocal
    · rw [(World.answer_withBackend hlocal w w.backend).2]
    cases request with
    | claimStore id lease now => exact congrArg (·.find key) (h.chunks_claim id lease now)
    | commitStore kind r record =>
      rw [(w.answer_commitStore kind r record).2]
      exact h.find_chunk_commit hconfig r hfits _ hkept
    | releaseStore r => exact congrArg (·.find key) (h.chunks_release r)
    | getStore id => exact congrArg (·.2.chunks.find key) (h.getStore id)
    | matchHash hash => exact congrArg (·.2.chunks.find key) (h.matchHash hash)
    | updateStatus id status =>
      exact congrArg (·.find key) (chunks_updateStatus w.backend id status)
    | commitFile kind r file =>
      have hchunks := chunks_commitFile ⟨w.backend, w.clock kind⟩ r file
      cases kind <;> exact congrArg (·.find key) hchunks
    | claimFile id lease now => rfl
    | releaseFile r => rfl
    | getFile id => rfl
    | updateFile file => rfl
    | removeFile id => rfl
    | filesForStore store => rfl
    | _ => exact (hlocal trivial).elim

end ChunkedStore

/-! ## Whatever is asked -/

namespace MemoryStore

/-- What is committed stays committed. -/
def Retains (m m' : MemoryStore) : Prop :=
  ∀ id, (m.stores.record? id).isSome = true → (m'.stores.record? id).isSome = true

theorem Retains.refl (m : MemoryStore) : Retains m m := fun _ h => h

theorem SameRecords.retains {m m' : MemoryStore} (h : SameRecords m m') : Retains m m' :=
  fun id hkept => (h id).symm ▸ hkept

theorem SameBlobs.retains {m m' : MemoryStore} (h : SameBlobs m m') : Retains m m' := by
  obtain ⟨status, h⟩ := h
  intro id hkept
  rw [h id, Option.isSome_map]
  exact hkept

theorem retains_commitAt (now : UInt64) (r : Reservation StoreId) (record : ContentRecord)
    (m : MemoryStore) : Retains m (ChunkedStore.commitAt now r record m).2 := by
  rw [ChunkedStore.commitAt_eq]
  split
  · cases hheld : (m.stores.get? r.id).any (·.isHeldBy r.lease.token now) with
    | false =>
      rw [SlotMap.commit_of_not_held hheld]
      exact .refl m
    | true =>
      rw [SlotMap.commit_of_held hheld]
      intro id hkept
      change (SlotMap.record? (m.stores.insert r.id (.committed record)) id).isSome = true
      rw [SlotMap.record?_insert]
      split
      · rfl
      · exact hkept
  · exact .refl m

end MemoryStore

section

variable {σ : Type} [Backend σ] [FileBackend σ]

/-- Whatever is asked, what is committed stays committed. -/
theorem World.retains_answer {w : World σ} {m : MemoryStore} (h : SlotBackend.Models w.backend m)
    {α : Type} {request : Request α} (hfits : request.Fits) :
    ∃ m', SlotBackend.Models (World.answer request w).2.backend m' ∧ m.Retains m' := by
  have hsame : (World.answer request w).2.backend = w.backend →
      ∃ m', SlotBackend.Models (World.answer request w).2.backend m' ∧ m.Retains m' :=
    fun heq => ⟨m, heq ▸ h, .refl m⟩
  by_cases hlocal : request.IsLocal
  · exact hsame (World.answer_withBackend hlocal w w.backend).2
  cases request with
  | claimStore id lease now =>
    exact (SlotBackend.claimStore h id lease now).exists_models h (.refl m)
      (MemoryStore.SameRecords.retains (m.stores.record?_claim id lease now))
  | commitStore kind r record =>
    obtain ⟨clock', now, out, _, hcommit, hfollows⟩ :=
      SlotBackend.commitStore h r record hfits (w.clock kind)
    rw [show (World.answer (.commitStore kind r record) w).2.backend = out.2 from
      (World.onClocked_eq hcommit).2]
    exact hfollows.exists_models h (.refl m) (m.retains_commitAt now r record)
  | releaseStore r =>
    exact (SlotBackend.releaseStore h r).exists_models h (.refl m)
      (m.sameRecords_release r).retains
  | getStore id => exact hsame (congrArg Prod.snd (SlotBackend.getStore h id))
  | matchHash hash => exact hsame (congrArg Prod.snd (SlotBackend.matchHash h hash))
  | updateStatus id status =>
    exact (SlotBackend.updateStatus h id status).exists_models h (.refl m)
      (m.sameBlobs_updateStatus id status).retains
  | claimFile id lease now =>
    exact (SlotBackend.claimFile h id lease now).exists_models h (.refl m) (.refl m)
  | commitFile kind r file =>
    obtain ⟨clock', out, hcommit, hfollows⟩ := FileBackend.commitFile h r file (w.clock kind)
    rw [show (World.answer (.commitFile kind r file) w).2.backend = out.2 from
      (World.onClocked_eq hcommit).2]
    refine hfollows.exists_models h (.refl m) ?_
    rw [ChunkedStore.commitFileAt_eq]
    split
    · exact .refl m
    · exact .refl m
  | releaseFile r => exact (FileBackend.releaseFile h r).exists_models h (.refl m) (.refl m)
  | getFile id => exact hsame (congrArg Prod.snd (FileBackend.getFile h id))
  | updateFile file => exact (FileBackend.updateFile h file).exists_models h (.refl m) (.refl m)
  | removeFile id => exact (FileBackend.removeFile h id).exists_models h (.refl m) (.refl m)
  | filesForStore store => exact hsame (congrArg Prod.snd (FileBackend.filesForStore h store))
  | _ => exact (hlocal trivial).elim

/-- Whatever a procedure asks amid whatever surroundings, the chunks of committed blobs stay. -/
theorem Asks.ensures_chunks [ShowsChunks σ] {kind : World Unit → Prop} {α : Type}
    {p : Procedure α} (hp : Asks Request.Fits p) {b : σ} {m : MemoryStore}
    (h : SlotBackend.Models b m) :
    Ensures kind (fun _ b' => ∀ key : ChunkKey, (m.stores.record? key.store).isSome = true →
      chunk? b' key = chunk? b key) p b := by
  induction p generalizing b m with
  | done a => exact fun _ _ => rfl
  | ask request next ih =>
    intro around _
    have hstart : SlotBackend.Models (around.withBackend b).backend m := h
    obtain ⟨m', hmodels', hretains⟩ := World.retains_answer hstart hp.1
    refine (ih _ (hp.2 _) hmodels').weaken fun _ b' hchunks key hkept => ?_
    exact (hchunks key (hretains _ hkept)).trans (ShowsChunks.chunk?_answer hstart hp.1 hkept)

/-- So chunks change only where a blob is committed that was not. -/
theorem Asks.chunk?_amid [ShowsChunks σ] {α : Type} {p : Procedure α} (hp : Asks Request.Fits p)
    {b : σ} {m n : MemoryStore} (h : SlotBackend.Models b m) {around : Nat → World Unit}
    (hafter : SlotBackend.Models (amid around p b).2 n) {key : ChunkKey}
    (hnone : m.stores.record? key.store = none → n.stores.record? key.store = none) :
    chunk? (amid around p b).2 key = chunk? b key := by
  cases hrecord : m.stores.record? key.store with
  | none =>
    rw [ShowsChunks.chunk?_eq_none h hrecord, ShowsChunks.chunk?_eq_none hafter (hnone hrecord)]
  | some record =>
    have hensures : Ensures (fun _ => True) _ p b := hp.ensures_chunks h
    exact hensures.amid (fun _ => trivial) key (congrArg Option.isSome hrecord)

end

end ContentVault
