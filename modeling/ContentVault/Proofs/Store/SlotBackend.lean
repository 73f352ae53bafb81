import ContentVault.Proofs.Store.Committing
import ContentVault.Proofs.Store.FileOperations
set_option autoImplicit false

/-!
# Backends that stand for slot maps

What a vault may rely on, whichever backend it runs over: each operation is the one on the
slot maps, unless it is refused and nothing happens.  Both backends are of this kind.
-/

namespace ContentVault

open ChunkedStore (Shows commitAt commitAt_eq commitFileAt commitFileAt_eq)

/-- A backend that carries out operations as slot maps do. -/
class SlotBackend (σ : Type) [Backend σ] where
  /-- The backend stands for the slot maps. -/
  Models : σ → MemoryStore → Prop
  claimStore {b : σ} {m : MemoryStore} (h : Models b m) (id : StoreId) (lease : Lease)
    (now : UInt64) :
    Follows Models b (Backend.claimStore id lease now b) (Backend.claimStore id lease now m)
  /-- A claim that is turned down changes nothing. -/
  unclaimedStore {b : σ} {id : StoreId} {lease : Lease} {now : UInt64} :
    (Backend.claimStore id lease now b).1 = .ok false →
      (Backend.claimStore id lease now b).2 = b
  /-- The lease holds or not at one of the readings of the clock. -/
  commitStore {b : σ} {m : MemoryStore} (h : Models b m) (r : Reservation StoreId)
    (record : ContentRecord) (hlength : record.content.length < UInt64.size) (clock : Clock) :
    ∃ clock' now out, Shows clock now ∧
      Backend.commitStore r record (⟨b, clock⟩ : Clocked σ) = (out.1, ⟨out.2, clock'⟩) ∧
      Follows Models b out (commitAt now r record m)
  releaseStore {b : σ} {m : MemoryStore} (h : Models b m) (r : Reservation StoreId) :
    Follows Models b (Backend.releaseStore r b) (Backend.releaseStore r m)
  getStore {b : σ} {m : MemoryStore} (h : Models b m) (id : StoreId) :
    Backend.getStore id b = (.ok (m.stores.record? id), b)
  matchHash {b : σ} {m : MemoryStore} (h : Models b m) (hash : UInt32) :
    Backend.matchHash hash b = (.ok (m.matchHash hash), b)
  updateStatus {b : σ} {m : MemoryStore} (h : Models b m) (id : StoreId) (status : Status) :
    Follows Models b (Backend.updateStatus id status b) (Backend.updateStatus id status m)
  claimFile {b : σ} {m : MemoryStore} (h : Models b m) (id : FileId) (lease : Lease)
    (now : UInt64) :
    Follows Models b (Backend.claimFile id lease now b) (Backend.claimFile id lease now m)
  /-- A claim that is turned down changes nothing. -/
  unclaimedFile {b : σ} {id : FileId} {lease : Lease} {now : UInt64} :
    (Backend.claimFile id lease now b).1 = .ok false → (Backend.claimFile id lease now b).2 = b

/-! ## In memory -/

namespace MemoryStore

/-- A slot map that is claimed in vain stays what it is. -/
theorem claim_eq_false {κ ρ : Type} [Ord κ] [Std.TransOrd κ] {m : SlotMap κ ρ} {id : κ}
    {lease : Lease} {now : UInt64} (h : (m.claim id lease now).1 = false) :
    m.claim id lease now = (false, m) := by
  unfold SlotMap.claim at h ⊢
  split
  next hall =>
    rw [if_pos hall] at h
    cases h
  · rfl

/-- A commit looks at the clock once at most. -/
theorem commitStore_eq (m : MemoryStore) (r : Reservation StoreId) (record : ContentRecord)
    (clock : Clock) :
    ∃ clock', commitStore ⟨m, clock⟩ r record
      = ((commitAt clock.read.1 r record m).1, ⟨(commitAt clock.read.1 r record m).2, clock'⟩) := by
  rw [commitAt_eq]
  unfold commitStore
  by_cases hid : record.id = r.id
  · rw [if_neg (not_not.mpr hid), if_pos hid]
    exact ⟨clock.read.2, rfl⟩
  · rw [if_pos hid, if_neg hid]
    exact ⟨clock, rfl⟩

/-- A commit looks at the clock once at most. -/
theorem commitFile_eq (m : MemoryStore) (r : Reservation FileId) (record : FileRecord)
    (clock : Clock) :
    ∃ clock', commitFile ⟨m, clock⟩ r record
      = ((commitFileAt clock.read.1 r record m).1,
        ⟨(commitFileAt clock.read.1 r record m).2, clock'⟩) := by
  rw [commitFileAt_eq]
  unfold commitFile
  by_cases hid : record.id = r.id
  · rw [if_neg (not_not.mpr hid), if_pos hid]
    exact ⟨clock.read.2, rfl⟩
  · rw [if_pos hid, if_neg hid]
    exact ⟨clock, rfl⟩

/-- In memory nothing is refused. -/
theorem ending_commitAt (m : MemoryStore) (r : Reservation StoreId) (record : ContentRecord)
    (now : UInt64) :
    Ending r record.id (m.stores.holds r now) m (fun _ => False) (fun _ => True)
      (ChunkedStore.commitAt now r record m) := by
  by_cases hid : record.id = r.id
  · cases hheld : m.stores.holds r now with
    | false =>
      rw [ChunkedStore.commitAt_of_not_held hid hheld]
      exact .notReserved hid rfl
    | true =>
      rw [ChunkedStore.commitAt_of_held hid hheld]
      exact .taken hid rfl trivial
  · rw [ChunkedStore.commitAt_of_ne hid]
    exact .mismatch hid

/-- In memory nothing is refused. -/
theorem ending_commitFileAt (m : MemoryStore) (r : Reservation FileId) (record : FileRecord)
    (now : UInt64) :
    Ending r record.id (m.files.holds r now) m (fun _ => False) (fun _ => True)
      (ChunkedStore.commitFileAt now r record m) := by
  rw [ChunkedStore.commitFileAt_eq]
  by_cases hid : record.id = r.id
  · rw [if_pos hid]
    cases hheld : m.files.holds r now with
    | false =>
      rw [SlotMap.commit_of_not_held hheld]
      exact .notReserved hid rfl
    | true =>
      rw [SlotMap.commit_of_held hheld]
      exact .taken hid rfl trivial
  · rw [if_neg hid]
    exact .mismatch hid

instance : SlotBackend MemoryStore where
  Models b m := b = m
  claimStore h _ _ _ := Or.inr (h ▸ ⟨rfl, rfl⟩)
  unclaimedStore := by
    intro b id lease now h
    have hclaim := claim_eq_false (Except.ok.inj h)
    change { b with stores := (b.stores.claim id lease now).2 } = b
    rw [hclaim]
  commitStore := by
    rintro b _ rfl r record _ clock
    obtain ⟨clock', hcommit⟩ := commitStore_eq b r record clock
    exact ⟨clock', clock.read.1, _, Or.inl rfl, hcommit, Or.inr ⟨rfl, rfl⟩⟩
  releaseStore h _ := Or.inr (h ▸ ⟨rfl, rfl⟩)
  getStore h _ := h ▸ rfl
  matchHash h _ := h ▸ rfl
  updateStatus h _ _ := Or.inr (h ▸ ⟨rfl, rfl⟩)
  claimFile h _ _ _ := Or.inr (h ▸ ⟨rfl, rfl⟩)
  unclaimedFile := by
    intro b id lease now h
    have hclaim := claim_eq_false (Except.ok.inj h)
    change { b with files := (b.files.claim id lease now).2 } = b
    rw [hclaim]

theorem getFile_of_models {b m : MemoryStore} (h : SlotBackend.Models b m) (id : FileId) :
    Backend.getFile id b = (.ok (m.files.record? id), b) := h ▸ rfl

end MemoryStore

/-! ## In chunks -/

namespace ChunkedStore

/-- A claim is refused if there is no room for a reservation, and is answered else. -/
theorem claim_answer (s : ChunkedStore) (id : StoreId) (lease : Lease) (now : UInt64) :
    (s.stores.limit < 24 ∧ (claim id lease now).unclocked s
      = (.error (s.stores.tooLarge (.reserved id lease)), s)) ∨
    (24 ≤ s.stores.limit ∧ ∃ claimed, ((claim id lease now).unclocked s).1 = .ok claimed) := by
  have hsize : encodedSize (Entry.reserved id lease : StoreDoc) = 24 := rfl
  unfold claim Client.unclocked
  simp only [Client.alone_bind, alone_upsertStore]
  rcases s.stores.upsertIf_cases id (.reserved id lease) (·.isClaimable now)
    with ⟨hlt, hup⟩ | ⟨hle, _, hup⟩ | ⟨hle, _, hup⟩
  · rw [hup]
    exact Or.inl ⟨hsize ▸ hlt, rfl⟩
  · rw [hup]
    exact Or.inr ⟨hsize ▸ hle, true, rfl⟩
  · rw [hup]
    exact Or.inr ⟨hsize ▸ hle, false, rfl⟩

theorem unclaimed_claim {s : ChunkedStore} {id : StoreId} {lease : Lease} {now : UInt64}
    (h : ((claim id lease now).unclocked s).1 ≠ .ok true) :
    ((claim id lease now).unclocked s).2 = s := by
  unfold claim Client.unclocked at h ⊢
  simp only [Client.alone_bind, alone_upsertStore] at h ⊢
  rcases s.stores.upsertIf_cases id (.reserved id lease) (·.isClaimable now)
    with ⟨_, hup⟩ | ⟨_, _, hup⟩ | ⟨_, _, hup⟩
  · simp only [hup]
    rfl
  · simp only [hup, Client.alone_bind, Client.alone_pure, ne_eq, not_true_eq_false] at h
  · simp only [hup]
    rfl

theorem unclaimed_claimFile {s : ChunkedStore} {id : FileId} {lease : Lease} {now : UInt64}
    (h : (s.claimFile id lease now).1 ≠ .ok true) : (s.claimFile id lease now).2 = s := by
  unfold claimFile onFiles at h ⊢
  rcases s.files.upsertIf_cases id (.reserved id lease) (·.isClaimable now)
    with ⟨_, hup⟩ | ⟨_, _, hup⟩ | ⟨_, _, hup⟩
  · simp only [hup]
  · simp only [hup, ne_eq, not_true_eq_false] at h
  · simp only [hup]

instance : SlotBackend ChunkedStore where
  Models := Models
  claimStore h id lease now := by
    obtain ⟨hconfig, writer, h⟩ := h
    exact h.claim hconfig id lease now
  unclaimedStore h := unclaimed_claim fun hclaimed => by cases h.symm.trans hclaimed
  commitStore h r record hlength clock := by
    obtain ⟨hconfig, writer, h⟩ := h
    exact h.commit hconfig [] r record hlength clock
  releaseStore h r := by
    obtain ⟨hconfig, writer, h⟩ := h
    exact h.release hconfig r
  getStore h id := by
    obtain ⟨_, writer, h⟩ := h
    exact h.getStore id
  matchHash h hash := by
    obtain ⟨_, writer, h⟩ := h
    exact h.matchHash hash
  updateStatus h id status := by
    obtain ⟨hconfig, writer, h⟩ := h
    exact h.updateStatus hconfig id status
  claimFile h id lease now := by
    obtain ⟨hconfig, writer, h⟩ := h
    exact h.claimFile hconfig id lease now
  unclaimedFile h := unclaimed_claimFile fun hclaimed => by cases h.symm.trans hclaimed

theorem getFile_of_models {b : ChunkedStore} {m : MemoryStore} (h : SlotBackend.Models b m)
    (id : FileId) : Backend.getFile id b = (.ok (m.files.record? id), b) := by
  obtain ⟨_, writer, h⟩ := h
  exact congrArg (Except.ok ·, _) (h.getFile id)

end ChunkedStore

end ContentVault
