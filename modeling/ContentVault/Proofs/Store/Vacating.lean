import ContentVault.Proofs.Store.Records
import ContentVault.Proofs.Store.SlotBackend
set_option autoImplicit false

/-!
# Claims that are given up

A claim takes a slot that is free or whose lease has lapsed; when it is given up again, the slot is
free, and that is all that is left of either lease.  A commit that fails leaves nothing at all.
-/

namespace ContentVault

/-- A backend in which claims that are given up leave nothing but a free slot. -/
class TidyBackend (σ : Type) [Backend σ] extends SlotBackend σ where
  /-- The slot of a blob. -/
  slotOf : σ → StoreId → Except StoreError (Option (Slot ContentRecord))
  /-- The backend in which the slot of a blob is free, and all else is what it is. -/
  vacate : StoreId → σ → σ
  /-- A lease or a chunk carries the token. -/
  Carries : σ → UInt64 → Prop
  slotOf_eq {b : σ} {m : MemoryStore} (h : Models b m) (id : StoreId) :
    slotOf b id = .ok (m.stores.get? id)
  vacate_of_free {b : σ} {m : MemoryStore} (h : Models b m) {id : StoreId}
    (hfree : m.stores.get? id = none) : vacate id b = b
  carries_vacate {b : σ} {id : StoreId} {token : UInt64} :
    Carries (vacate id b) token → Carries b token
  release_claim {b : σ} {m : MemoryStore} (h : Models b m) {id : StoreId} {lease : Lease}
    {now : UInt64} (hclaimed : (Backend.claimStore id lease now b).1 = .ok true) :
    (Backend.releaseStore ⟨id, lease⟩ (Backend.claimStore id lease now b).2).2 = vacate id b
  uncommitted {b : σ} {m : MemoryStore} (h : Models b m) {r : Reservation StoreId}
    {record : ContentRecord} (hlength : record.content.length < UInt64.size) {clock : Clock}
    (hfailed : (Backend.commitStore r record (⟨b, clock⟩ : Clocked σ)).1.isOk = false) :
    (Backend.commitStore r record (⟨b, clock⟩ : Clocked σ)).2.state = b

/-! ## In memory -/

namespace MemoryStore

/-- The slots without that of a blob. -/
def vacate (id : StoreId) (m : MemoryStore) : MemoryStore :=
  { m with stores := m.stores.erase id }

/-- A lease carries the token. -/
def Carries (m : MemoryStore) (token : UInt64) : Prop :=
  (∃ id lease, m.stores.get? id = some (.reserved lease) ∧ lease.token = token) ∨
    ∃ id lease, m.files.get? id = some (.reserved lease) ∧ lease.token = token

theorem release_claim {m : MemoryStore} {id : StoreId} {lease : Lease} {now : UInt64}
    (hclaimed : (Backend.claimStore id lease now m).1 = .ok true) :
    (Backend.releaseStore ⟨id, lease⟩ (Backend.claimStore id lease now m).2).2 = m.vacate id := by
  have hclaim := (SlotMap.claim_eq_true (Except.ok.inj hclaimed)).2
  change ({ m with
    stores := ((m.stores.claim id lease now).2.release ⟨id, lease⟩).2 } : MemoryStore) = _
  rw [hclaim]
  have hheld : ((m.stores.insert id (.reserved lease)).get? id).any
      (·.isLeasedTo lease.token) = true := by
    rw [OrderedMap.get?_insert_self]
    exact beq_self_eq_true lease.token
  unfold SlotMap.release
  rw [if_pos hheld]
  exact congrArg (fun stores => { m with stores }) (m.stores.erase_insert id _)

instance : TidyBackend MemoryStore where
  slotOf m id := .ok (m.stores.get? id)
  vacate := vacate
  Carries := Carries
  slotOf_eq h _ := h ▸ rfl
  vacate_of_free := by
    rintro b _ rfl id hfree
    exact congrArg (fun stores => { b with stores }) (OrderedMap.erase_of_none hfree)
  carries_vacate := by
    rintro b id token (⟨id', lease, hget, htoken⟩ | hfile)
    · refine Or.inl ⟨id', lease, ?_, htoken⟩
      change (b.stores.erase id).get? id' = _ at hget
      rw [OrderedMap.get?_erase] at hget
      split at hget
      · cases hget
      · exact hget
    · exact Or.inr hfile
  release_claim _ := release_claim
  uncommitted := by
    rintro b _ rfl r record _ clock hfailed
    obtain ⟨clock', hcommit⟩ := commitStore_eq b r record clock
    change (commitStore ⟨b, clock⟩ r record).1.isOk = false at hfailed
    change (commitStore ⟨b, clock⟩ r record).2.state = b
    rw [hcommit] at hfailed ⊢
    exact (b.ending_commitAt r record clock.read.1).eq_before hfailed

end MemoryStore

/-! ## In chunks -/

/-- What was put at a key is dropped with it. -/
theorem Collection.drop_put {κ δ : Type} [Ord κ] [Std.TransOrd κ] [Std.LawfulEqOrd κ]
    [DecidableEq κ] (c : Collection κ δ) (key : κ) (doc : δ) :
    (c.put key doc).drop key = c.drop key :=
  congrArg (fun records => { c with records }) (c.records.erase_insert key doc)

namespace ChunkedStore

/-- The store without the document of a blob. -/
def vacate (id : StoreId) (s : ChunkedStore) : ChunkedStore :=
  { s with stores := s.stores.drop id }

/-- A lease or a chunk carries the token. -/
def Carries (s : ChunkedStore) (token : UInt64) : Prop :=
  (∃ id doc lease, s.stores.find id = some doc ∧ doc.lease? = some lease ∧ lease.token = token) ∨
  (∃ id doc lease, s.files.find id = some doc ∧ doc.lease? = some lease ∧ lease.token = token) ∨
    ∃ key doc, s.chunks.find key = some doc ∧ key.writer = token

section

variable {s : ChunkedStore} {m : MemoryStore} {writer : StoreId → UInt64}

/-- Of a blob that is not committed there is nothing to purge. -/
theorem Represents.purged_eq (h : Represents s m writer) {id : StoreId}
    (hnone : m.stores.record? id = none) (doomed : UInt64 → Bool)
    (stores : Collection StoreId StoreDoc) :
    ({ s with stores } : ChunkedStore).purged id doomed = { s with stores } := by
  have hchunks : (s.purged id doomed).chunks = s.chunks :=
    Collection.ext_find rfl rfl (h.find_purged hnone doomed)
  exact congrArg (fun chunks => { s with stores, chunks }) hchunks

/-- A claim that succeeds puts the document of a lease where no blob is committed. -/
theorem Represents.claim_eq (h : Represents s m writer) {id : StoreId} {lease : Lease}
    {now : UInt64} (hclaimed : ((ChunkedStore.claim id lease now).unclocked s).1 = .ok true) :
    m.stores.record? id = none ∧
      ((ChunkedStore.claim id lease now).unclocked s).2
        = { s with stores := s.stores.put id (.reserved id lease) } := by
  unfold ChunkedStore.claim Client.unclocked at hclaimed ⊢
  simp only [Client.alone_bind, alone_upsertStore] at hclaimed ⊢
  rcases s.stores.upsertIf_cases id (.reserved id lease) (·.isClaimable now)
    with ⟨_, hup⟩ | ⟨_, hall, hup⟩ | ⟨_, _, hup⟩
  · simp only [hup] at hclaimed
    cases hclaimed
  · have hnone : m.stores.record? id = none := by
      refine SlotMap.record?_eq_none fun record hget => ?_
      rw [h.stores, hget] at hall
      cases hall
    refine ⟨hnone, ?_⟩
    simp only [hup, Client.alone_bind, Client.alone_pure, alone_purgeChunks]
    exact h.purged_eq hnone _ _
  · simp only [hup] at hclaimed
    cases hclaimed

theorem Represents.release_claim (h : Represents s m writer) {id : StoreId} {lease : Lease}
    {now : UInt64} (hclaimed : ((ChunkedStore.claim id lease now).unclocked s).1 = .ok true) :
    ((ChunkedStore.release ⟨id, lease⟩).unclocked
      ((ChunkedStore.claim id lease now).unclocked s).2).2 = s.vacate id := by
  obtain ⟨hnone, hclaim⟩ := h.claim_eq hclaimed
  rw [hclaim]
  unfold ChunkedStore.release Client.unclocked
  simp only [Client.alone_bind, alone_deleteStore]
  rcases (s.stores.put id (.reserved id lease)).deleteIf_cases id (·.isLeasedTo lease.token)
    with ⟨hany, _⟩ | ⟨_, _, _, hdel⟩
  · rw [Collection.find_put, if_pos rfl] at hany
    exact absurd (beq_self_eq_true lease.token) (Bool.eq_false_iff.mp hany)
  · simp only [hdel, if_true, Client.alone_bind, Client.alone_pure, alone_purgeChunks,
      Collection.drop_put]
    exact h.purged_eq hnone _ _

end

instance : TidyBackend ChunkedStore where
  slotOf := storeSlot
  vacate := vacate
  Carries := Carries
  slotOf_eq h id := by
    obtain ⟨_, writer, h⟩ := h
    exact h.storeSlot_eq id
  vacate_of_free := by
    rintro s m ⟨_, writer, h⟩ id hfree
    have hdrop : s.stores.drop id = s.stores := by
      refine Collection.ext_find rfl rfl fun id' => ?_
      rw [Collection.find_drop]
      split
      next heq =>
        rw [heq, h.stores, hfree]
        rfl
      · rfl
    exact congrArg (fun stores => { s with stores }) hdrop
  carries_vacate := by
    rintro s id token (⟨id', doc, lease, hfind, hlease⟩ | hother)
    · refine Or.inl ⟨id', doc, lease, ?_, hlease⟩
      change (s.stores.drop id).find id' = _ at hfind
      rw [Collection.find_drop] at hfind
      split at hfind
      · cases hfind
      · exact hfind
    · exact Or.inr hother
  release_claim := by
    rintro s m ⟨_, writer, h⟩ id lease now hclaimed
    exact h.release_claim hclaimed
  uncommitted := by
    rintro s m ⟨hconfig, writer, h⟩ r record hlength clock hfailed
    obtain ⟨clock', now, out, _, hcommit, hends⟩ :=
      h.commit_ends hconfig [] r record hlength clock
    change ((commit s.config [] r record).alone ⟨s, clock⟩).1.isOk = false at hfailed
    change ((commit s.config [] r record).alone ⟨s, clock⟩).2.state = s
    rw [hcommit] at hfailed ⊢
    exact hends.eq_before hfailed

end ChunkedStore

end ContentVault
