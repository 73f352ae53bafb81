import ContentVault.Proofs.Store.Committing
set_option autoImplicit false

/-!
# What is committed in slot maps

Leases come and go without a trace in what is committed; a commit adds one record.  The
blobs of a checksum are the committed ones, in the order of their identifiers.
-/

namespace ContentVault

namespace SlotMap

variable {κ ρ : Type} [Ord κ]

/-- A claim that succeeds takes a slot that is not committed. -/
theorem claim_eq_true [Std.TransOrd κ] {m : SlotMap κ ρ} {id : κ} {lease : Lease} {now : UInt64}
    (h : (m.claim id lease now).1 = true) :
    m.record? id = none ∧ m.claim id lease now = (true, m.insert id (.reserved lease)) := by
  unfold claim at h ⊢
  split at h
  next hall =>
    refine ⟨record?_eq_none fun record hget => ?_, if_pos hall⟩
    rw [hget] at hall
    cases hall
  · cases h

variable [Std.LawfulEqOrd κ]

theorem mem_recordsWhere_iff (m : SlotMap κ ρ) (p : κ → Bool) (record : ρ) :
    record ∈ m.recordsWhere p ↔ ∃ id, p id = true ∧ m.record? id = some record := by
  rw [recordsWhere, List.mem_filterMap]
  constructor
  · rintro ⟨⟨id, slot⟩, hmem, hrecord⟩
    change (if p id then slot.record? else none) = some record at hrecord
    by_cases hp : p id = true
    · rw [if_pos hp] at hrecord
      refine ⟨id, hp, ?_⟩
      rw [record?, (m.mem_entries_iff id slot).mp hmem]
      exact hrecord
    · rw [if_neg hp] at hrecord
      cases hrecord
  · rintro ⟨id, hp, hrecord⟩
    exact ⟨(id, .committed record), (m.mem_entries_iff id _).mpr (record?_eq_some hrecord),
      if_pos hp⟩

/-- Records come in the order of the identifiers that they are committed under. -/
theorem recordsWhere_pairwise (m : SlotMap κ ρ) (p : κ → Bool) {R : ρ → ρ → Prop}
    (hR : ∀ id id' record record', compare id id' = .lt → m.record? id = some record →
      m.record? id' = some record' → R record record') : (m.recordsWhere p).Pairwise R := by
  have hrecord : ∀ e ∈ m.entries, ∀ record,
      (if p e.1 then e.2.record? else none) = some record → m.record? e.1 = some record := by
    rintro ⟨id, slot⟩ he record hslot
    rw [record?, (m.mem_entries_iff id slot).mp he]
    by_cases hp : p id = true
    · rwa [if_pos hp] at hslot
    · rw [if_neg hp] at hslot
      cases hslot
  rw [recordsWhere, List.pairwise_filterMap]
  refine m.sorted.imp_of_mem fun {a b} ha hb hlt record ha' record' hb' => ?_
  exact hR a.1 b.1 record record' hlt (hrecord a ha record ha') (hrecord b hb record' hb')

/-- A claim changes nothing that is committed. -/
theorem record?_claim [Std.TransOrd κ] [DecidableEq κ] (m : SlotMap κ ρ) (id : κ) (lease : Lease)
    (now : UInt64) (id' : κ) : SlotMap.record? (m.claim id lease now).2 id' = m.record? id' := by
  cases hclaim : (m.claim id lease now).1 with
  | true =>
    obtain ⟨hnone, hinsert⟩ := claim_eq_true hclaim
    rw [hinsert]
    exact record?_insert_eq hnone rfl id'
  | false =>
    unfold claim at hclaim ⊢
    split at hclaim
    · cases hclaim
    next hall => rw [if_neg hall]

/-- Giving a lease up changes nothing that is committed. -/
theorem record?_release [DecidableEq κ] (m : SlotMap κ ρ) (r : Reservation κ) (id : κ) :
    SlotMap.record? (m.release r).2 id = m.record? id := by
  unfold release
  split
  next hany =>
    refine record?_erase_eq (record?_eq_none fun record hget => ?_) id
    rw [hget] at hany
    cases hany
  · rfl

end SlotMap

namespace MemoryStore

/-- The same blobs are committed. -/
def SameRecords (m n : MemoryStore) : Prop := ∀ id, n.stores.record? id = m.stores.record? id

theorem SameRecords.refl (m : MemoryStore) : SameRecords m m := fun _ => rfl

theorem SameRecords.trans {m n k : MemoryStore} (h : SameRecords m n) (h' : SameRecords n k) :
    SameRecords m k := fun id => (h' id).trans (h id)

/-- A claim that succeeds takes a slot that is not committed, and nothing else changes. -/
theorem sameRecords_claim {m : MemoryStore} {id : StoreId} {lease : Lease} {now : UInt64}
    (h : (Backend.claimStore id lease now m).1 = .ok true) :
    m.stores.record? id = none ∧ SameRecords m (Backend.claimStore id lease now m).2 := by
  obtain ⟨hnone, hclaim⟩ := SlotMap.claim_eq_true (Except.ok.inj h)
  refine ⟨hnone, fun id' => ?_⟩
  change (m.stores.claim id lease now).2.record? id' = m.stores.record? id'
  rw [hclaim]
  exact SlotMap.record?_insert_eq hnone rfl id'

theorem sameRecords_release (m : MemoryStore) (r : Reservation StoreId) :
    SameRecords m { m with stores := (m.stores.release r).2 } := m.stores.record?_release r

/-- The same blobs are committed, but for their statuses. -/
def SameBlobs (m n : MemoryStore) : Prop :=
  ∃ status : StoreId → Status → Status, ∀ id, n.stores.record? id
    = (m.stores.record? id).map fun record => { record with status := status id record.status }

theorem SameRecords.sameBlobs {m n : MemoryStore} (h : SameRecords m n) : SameBlobs m n :=
  ⟨fun _ status => status, fun id => (h id).trans Option.map_id'.symm⟩

theorem sameBlobs_updateStatus (m : MemoryStore) (id : StoreId) (status : Status) :
    SameBlobs m (m.updateStatus id status).2 := by
  refine ⟨fun id' old => if id' = id then status else old, fun id' => ?_⟩
  change (m.stores.replace id fun record => { record with status }).2.record? id' = _
  unfold SlotMap.replace
  cases hrecord : m.stores.record? id with
  | none =>
    by_cases hid : id' = id
    · subst hid
      rw [hrecord]
      rfl
    · simp only [hid, if_false]
      exact Option.map_id'.symm
  | some record =>
    change SlotMap.record? (m.stores.insert id _) id' = _
    rw [SlotMap.record?_insert]
    by_cases hid : id' = id
    · subst hid
      simp only [if_true, hrecord]
      rfl
    · simp only [hid, if_false]
      exact Option.map_id'.symm

theorem mem_matchHash_iff (m : MemoryStore) (hash : UInt32) (record : ContentRecord) :
    record ∈ m.matchHash hash ↔ ∃ id, id.hash = hash ∧ m.stores.record? id = some record := by
  rw [matchHash, SlotMap.mem_recordsWhere_iff]
  simp only [beq_iff_eq]

/-- If each blob bears its own identifier, those of a checksum come in the order of these. -/
theorem matchHash_pairwise {m : MemoryStore}
    (hids : ∀ id record, m.stores.record? id = some record → record.id = id) (hash : UInt32) :
    (m.matchHash hash).Pairwise fun a b => compare a.id b.id = .lt := by
  refine SlotMap.recordsWhere_pairwise m.stores _ ?_
  intro id id' record record' hlt hrecord hrecord'
  rw [hids id record hrecord, hids id' record' hrecord']
  exact hlt

/-- A record is looked for among the committed ones of its checksum. -/
theorem find?_matchHash_eq_none_iff (m : MemoryStore) (hash : UInt32) (p : ContentRecord → Bool) :
    (m.matchHash hash).find? p = none ↔
      ∀ id record, id.hash = hash → m.stores.record? id = some record → p record = false := by
  rw [List.find?_eq_none]
  constructor
  · intro h id record hid hrecord
    have hmem := (m.mem_matchHash_iff hash record).mpr ⟨id, hid, hrecord⟩
    exact Bool.eq_false_iff.mpr (h record hmem)
  · intro h record hmem
    obtain ⟨id, hid, hrecord⟩ := (m.mem_matchHash_iff hash record).mp hmem
    exact Bool.eq_false_iff.mp (h id record hid hrecord)

/-- What is looked for in vain is not there when the same blobs are committed. -/
theorem SameRecords.find?_matchHash_eq_none {m n : MemoryStore} (h : SameRecords m n)
    {hash : UInt32} {p : ContentRecord → Bool} (hnone : (m.matchHash hash).find? p = none) :
    (n.matchHash hash).find? p = none := by
  rw [find?_matchHash_eq_none_iff] at hnone ⊢
  intro id record hid hrecord
  rw [h id] at hrecord
  exact hnone id record hid hrecord

end MemoryStore

end ContentVault
