import ContentVault.Proofs.Store.Lanes
import ContentVault.Proofs.Store.Represents
set_option autoImplicit false

/-!
# Operations on a chunked store, seen as operations on slots

Carried out alone, every operation on a chunked store answers as the same operation on the
slot maps that the store stands for, and leaves a store that stands for what they have
become; or a document or the number of chunks is beyond the limits, and then the store is
left exactly as it was.
-/

namespace ContentVault

/-! ## Slot maps after a change -/

namespace SlotMap

theorem record?_eq_none {κ ρ : Type} [Ord κ] {m : SlotMap κ ρ} {id : κ}
    (h : ∀ record, m.get? id ≠ some (.committed record)) : m.record? id = none := by
  unfold record?
  cases hslot : m.get? id with
  | none => rfl
  | some slot =>
    cases slot with
    | reserved lease => rfl
    | committed record => exact absurd hslot (h record)

theorem record?_eq_some {κ ρ : Type} [Ord κ] {m : SlotMap κ ρ} {id : κ} {record : ρ}
    (h : m.record? id = some record) : m.get? id = some (.committed record) := by
  unfold record? at h
  cases hslot : m.get? id with
  | none =>
    rw [hslot] at h
    cases h
  | some slot =>
    rw [hslot] at h
    cases slot with
    | reserved lease => cases h
    | committed record' =>
      cases h
      rfl

section

variable {κ ρ : Type} [Ord κ] [Std.TransOrd κ] [Identifier κ]

theorem commit_of_held {m : SlotMap κ ρ} {r : Reservation κ} {now : UInt64}
    (h : (m.get? r.id).any (·.isHeldBy r.lease.token now) = true) (record : ρ) :
    m.commit r record now = (.ok (), m.insert r.id (.committed record)) := if_pos h

theorem commit_of_not_held {m : SlotMap κ ρ} {r : Reservation κ} {now : UInt64}
    (h : (m.get? r.id).any (·.isHeldBy r.lease.token now) = false) (record : ρ) :
    m.commit r record now = (.error r.notReserved, m) := if_neg (Bool.eq_false_iff.mp h)

end

variable {κ ρ : Type} [Ord κ] [Std.LawfulEqOrd κ] [DecidableEq κ]

theorem record?_erase (m : SlotMap κ ρ) (id id' : κ) :
    SlotMap.record? (m.erase id) id' = if id' = id then none else m.record? id' := by
  unfold record?
  rw [OrderedMap.get?_erase]
  split
  · rfl
  · rfl

/-- Nothing changes for what is committed when a slot that is not committed is freed. -/
theorem record?_erase_eq {m : SlotMap κ ρ} {id : κ} (hnone : m.record? id = none) (id' : κ) :
    SlotMap.record? (m.erase id) id' = m.record? id' := by
  rw [record?_erase]
  split
  next hid => rw [hid, hnone]
  · rfl

variable [Std.TransOrd κ]

theorem record?_insert (m : SlotMap κ ρ) (id id' : κ) (slot : Slot ρ) :
    SlotMap.record? (m.insert id slot) id' = if id' = id then slot.record? else m.record? id' := by
  unfold record?
  rw [OrderedMap.get?_insert]
  split
  · rfl
  · rfl

/-- Nothing changes for what is committed when a slot that is not committed is set to another such
one. -/
theorem record?_insert_eq {m : SlotMap κ ρ} {id : κ} {slot : Slot ρ} (hnone : m.record? id = none)
    (hslot : slot.record? = none) (id' : κ) :
    SlotMap.record? (m.insert id slot) id' = m.record? id' := by
  rw [record?_insert]
  split
  next hid => rw [hslot, hid, hnone]
  · rfl

end SlotMap

/-- Carries out an action while its clock stands still. -/
def Atomic.standing {σ α : Type} (now : UInt64) (action : Atomic (Clocked σ) α) : Atomic σ α :=
  fun s =>
    let (a, s) := action ⟨s, .still now⟩
    (a, s.state)

/-- The reservation is that of a live lease on the slot. -/
def SlotMap.holds {κ ρ : Type} [Ord κ] (m : SlotMap κ ρ) (r : Reservation κ) (now : UInt64) :
    Bool :=
  (m.get? r.id).any (·.isHeldBy r.lease.token now)

/-- A lease that was just put down is held as long as it is live. -/
theorem SlotMap.holds_insert_self {κ ρ : Type} [Ord κ] [Std.LawfulEqOrd κ] [Std.TransOrd κ]
    (m : SlotMap κ ρ) (r : Reservation κ) (now : UInt64) :
    SlotMap.holds (m.insert r.id (.reserved r.lease)) r now = r.lease.isLive now := by
  rw [holds, OrderedMap.get?_insert_self]
  change (r.lease.token == r.lease.token && _) = _
  rw [beq_self_eq_true, Bool.true_and]

/-- How a commit ends, by whether the lease is held: only one that is taken changes anything. -/
inductive Ending {κ σ : Type} [Identifier κ] (r : Reservation κ) (payload : κ) (held : Bool)
    (before : σ) (refuses : StoreError → Prop) (takes : σ → Prop) :
    Except StoreError Unit × σ → Prop where
  | mismatch (hid : payload ≠ r.id) :
    Ending r payload held before refuses takes (.error (r.mismatch payload), before)
  | notReserved (hid : payload = r.id) (hheld : held = false) :
    Ending r payload held before refuses takes (.error r.notReserved, before)
  | refused {e : StoreError} (hid : payload = r.id) (hheld : held = true) (he : refuses e) :
    Ending r payload held before refuses takes (.error e, before)
  | taken {after : σ} (hid : payload = r.id) (hheld : held = true) (hafter : takes after) :
    Ending r payload held before refuses takes (.ok (), after)

/-- Only a commit that is taken changes anything. -/
theorem Ending.eq_before {κ σ : Type} [Identifier κ] {r : Reservation κ} {payload : κ}
    {held : Bool} {before : σ} {refuses : StoreError → Prop} {takes : σ → Prop}
    {out : Except StoreError Unit × σ} (h : Ending r payload held before refuses takes out)
    (hfailed : out.1.isOk = false) : out.2 = before := by
  cases h with
  | mismatch _ => rfl
  | notReserved _ _ => rfl
  | refused _ _ _ => rfl
  | taken _ _ _ => cases hfailed

/-- The answer is the expected one and so is what the store stands for; or something was refused and
the store is as it was. -/
def Follows {σ α : Type} (models : σ → MemoryStore → Prop) (before : σ)
    (out : Except StoreError α × σ) (expected : Except StoreError α × MemoryStore) : Prop :=
  (∃ e, e.isRefusal = true ∧ out = (.error e, before)) ∨
  (out.1 = expected.1 ∧ models out.2 expected.2)

/-- What holds of the slots before and after an operation holds of those that the store stands for
when it is carried out or refused. -/
theorem Follows.exists_models {σ α : Type} {models : σ → MemoryStore → Prop} {before : σ}
    {out : Except StoreError α × σ} {expected : Except StoreError α × MemoryStore}
    (h : Follows models before out expected) {m : MemoryStore} (hmodels : models before m)
    {P : MemoryStore → Prop} (hbefore : P m) (hafter : P expected.2) :
    ∃ m', models out.2 m' ∧ P m' := by
  rcases h with ⟨e, _, hout⟩ | ⟨_, hmodels'⟩
  · rw [hout]
    exact ⟨m, hmodels, hbefore⟩
  · exact ⟨expected.2, hmodels', hafter⟩

namespace ChunkedStore

/-- Settings under which chunks have bytes and there is a lane. -/
structure Usable (config : ChunkedConfig) : Prop where
  chunkSize_ne : config.chunkSize ≠ 0
  lanes_ne : config.writeParallelism ≠ 0

/-- A store that could be created is empty and has usable settings. -/
theorem usable_of_create {config : ChunkedConfig} {s : ChunkedStore}
    (h : create config = .ok s) : s = empty config ∧ Usable config := by
  obtain ⟨hvalid, rfl⟩ := create_eq_ok_iff.mp h
  obtain ⟨hsize, _, hlanes⟩ := config.validate_eq_ok_iff.mp hvalid
  exact ⟨rfl, hsize, hlanes⟩

/-- The store has usable settings and stands for the slot maps. -/
def Models (s : ChunkedStore) (m : MemoryStore) : Prop :=
  Usable s.config ∧ ∃ writer, Represents s m writer

theorem models_empty {config : ChunkedConfig} (h : Usable config) :
    Models (empty config) .empty := ⟨h, _, represents_empty config⟩

namespace Represents

variable {s t : ChunkedStore} {m n : MemoryStore} {writer : StoreId → UInt64}

/-- What is committed is the same, so chunks stay what they are. -/
theorem of_record?_eq (h : Represents s m writer) (hconfig : t.config = s.config)
    (hstores : ∀ id, t.stores.find id
      = (n.stores.get? id).map (·.toEntry (descriptionOf s.config (writer id)) id))
    (hchunks : ∀ key, t.chunks.find key = s.chunks.find key)
    (hfiles : ∀ id, t.files.find id = (n.files.get? id).map (·.toEntry (fun record => record) id))
    (hrecord? : ∀ id, n.stores.record? id = m.stores.record? id) : Represents t n writer := by
  refine ⟨fun id => ?_, fun key doc => ?_, hfiles, fun id record hrecord => ?_⟩
  · rw [hconfig, hstores]
  · rw [hconfig, hchunks, hrecord?]
    exact h.chunks key doc
  · rw [hconfig]
    exact h.storable id record (hrecord? id ▸ hrecord)

/-- A blob that is not committed has no chunks. -/
theorem find_chunk_eq_none (h : Represents s m writer) {key : ChunkKey}
    (hnone : m.stores.record? key.store = none) : s.chunks.find key = none := by
  rw [Option.eq_none_iff_forall_ne_some]
  intro doc hdoc
  obtain ⟨record, hrecord, _⟩ := (h.chunks key doc).mp hdoc
  rw [hnone] at hrecord
  cases hrecord

theorem find_purged (h : Represents s m writer) {id : StoreId}
    (hnone : m.stores.record? id = none) (doomed : UInt64 → Bool) (key : ChunkKey) :
    (s.purged id doomed).chunks.find key = s.chunks.find key := by
  refine (find_purge s id doomed key).trans ?_
  split
  next hkey =>
    rw [h.find_chunk_eq_none (hkey.1 ▸ hnone)]
  · rfl

/-- The slot of a blob that is not committed is set. -/
theorem find_put (h : Represents s m writer) (id id' : StoreId) (slot : Slot ContentRecord) :
    (s.stores.put id (slot.toEntry (descriptionOf s.config (writer id)) id)).find id'
      = ((m.stores.insert id slot).get? id').map
          (·.toEntry (descriptionOf s.config (writer id')) id') := by
  rw [Collection.find_put, OrderedMap.get?_insert]
  by_cases hid : id' = id
  · rw [if_pos hid, if_pos hid, hid]
    rfl
  · rw [if_neg hid, if_neg hid, h.stores]

theorem find_drop (h : Represents s m writer) (id id' : StoreId) :
    (s.stores.drop id).find id'
      = ((m.stores.erase id).get? id').map
          (·.toEntry (descriptionOf s.config (writer id')) id') := by
  rw [Collection.find_drop, OrderedMap.get?_erase]
  by_cases hid : id' = id
  · rw [if_pos hid, if_pos hid]
    rfl
  · rw [if_neg hid, if_neg hid, h.stores]

/-! ## Claiming and releasing -/

theorem claim (h : Represents s m writer) (hconfig : Usable s.config) (id : StoreId)
    (lease : Lease) (now : UInt64) :
    Follows Models s ((ChunkedStore.claim id lease now).unclocked s)
      (Backend.claimStore id lease now m) := by
  have hclaimable : (s.stores.find id).all (·.isClaimable now)
      = (m.stores.get? id).all (·.isClaimable now) := by
    rw [h.stores]
    cases m.stores.get? id with
    | none => rfl
    | some slot => exact Entry.isClaimable_toEntry _ _ _ _
  change Follows Models s _
    (.ok (m.stores.claim id lease now).1, { m with stores := (m.stores.claim id lease now).2 })
  unfold ChunkedStore.claim Client.unclocked
  simp only [Client.alone_bind, alone_upsertStore]
  rcases s.stores.upsertIf_cases id (.reserved id lease) (·.isClaimable now)
    with ⟨_, hup⟩ | ⟨_, hall, hup⟩ | ⟨_, hall, hup⟩
  · simp only [hup]
    exact Or.inl ⟨_, rfl, rfl⟩
  · rw [hclaimable] at hall
    have hslots : m.stores.claim id lease now = (true, m.stores.insert id (.reserved lease)) :=
      if_pos hall
    have hnone : m.stores.record? id = none := by
      refine SlotMap.record?_eq_none fun record hget => ?_
      rw [hget] at hall
      cases hall
    simp only [hup, hslots, Client.alone_bind, Client.alone_pure, alone_purgeChunks]
    refine Or.inr ⟨rfl, hconfig, writer, ?_⟩
    exact h.of_record?_eq rfl (h.find_put id · (.reserved lease))
      (h.find_purged hnone (· != lease.token)) h.files (SlotMap.record?_insert_eq hnone rfl)
  · rw [hclaimable] at hall
    have hslots : m.stores.claim id lease now = (false, m.stores) :=
      if_neg (Bool.eq_false_iff.mp hall)
    simp only [hup, hslots, Client.alone_pure]
    exact Or.inr ⟨rfl, hconfig, writer, h⟩

theorem release (h : Represents s m writer) (hconfig : Usable s.config)
    (r : Reservation StoreId) :
    Follows Models s ((ChunkedStore.release r).unclocked s) (Backend.releaseStore r m) := by
  have hleased : (s.stores.find r.id).any (·.isLeasedTo r.lease.token)
      = (m.stores.get? r.id).any (·.isLeasedTo r.lease.token) := by
    rw [h.stores]
    cases m.stores.get? r.id with
    | none => rfl
    | some slot => exact Entry.isLeasedTo_toEntry _ _ _ _
  change Follows Models s _
    (.ok (m.stores.release r).1, { m with stores := (m.stores.release r).2 })
  unfold ChunkedStore.release Client.unclocked
  simp only [Client.alone_bind, alone_deleteStore]
  rcases s.stores.deleteIf_cases r.id (·.isLeasedTo r.lease.token)
    with ⟨hany, hdel⟩ | ⟨doc, hfind, hacc, hdel⟩
  · rw [hleased] at hany
    have hslots : m.stores.release r = (false, m.stores) := if_neg (Bool.eq_false_iff.mp hany)
    simp only [hdel, hslots, Bool.false_eq_true, if_false, Client.alone_pure]
    exact Or.inr ⟨rfl, hconfig, writer, h⟩
  · have hany : (m.stores.get? r.id).any (·.isLeasedTo r.lease.token) = true := by
      rw [← hleased, hfind]
      exact hacc
    have hslots : m.stores.release r = (true, m.stores.erase r.id) := if_pos hany
    have hnone : m.stores.record? r.id = none := by
      refine SlotMap.record?_eq_none fun record hget => ?_
      rw [hget] at hany
      cases hany
    simp only [hdel, hslots, if_true, Client.alone_bind, Client.alone_pure, alone_purgeChunks]
    refine Or.inr ⟨rfl, hconfig, writer, ?_⟩
    exact h.of_record?_eq rfl (h.find_drop r.id)
      (h.find_purged hnone (· == r.lease.token)) h.files (SlotMap.record?_erase_eq hnone)

end Represents

end ChunkedStore

end ContentVault
