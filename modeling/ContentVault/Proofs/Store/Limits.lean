import ContentVault.Proofs.Store.Fitting
set_option autoImplicit false

/-!
# What a backend refuses

A backend that stands for slot maps may still refuse what is too large for it.  What it refuses is
fixed when it is created, and does not depend on identifiers or tokens.
-/

namespace ContentVault

/-- What is refused, by the name of the error: claims, commits of records, and changes of a record's
status.  Identifiers make no difference. -/
structure Limits where
  claim? : Option String
  commit? : ContentRecord → Option String
  status? : ContentRecord → Status → Option String
  commit?_withId (record : ContentRecord) (id : StoreId) :
    commit? (record.withId id) = commit? record
  status?_withId (record : ContentRecord) (id : StoreId) :
    status? (record.withId id) = status? record

/-- Nothing is refused. -/
def Limits.unlimited : Limits :=
  ⟨none, fun _ => none, fun _ _ => none, fun _ _ => rfl, fun _ _ => rfl⟩

theorem ChunkedConfig.fits_withId (config : ChunkedConfig) (record : ContentRecord) (id : StoreId) :
    config.Fits (record.withId id) ↔ config.Fits record :=
  ⟨fun ⟨hcount, hchunk, hdocument⟩ => ⟨hcount, hchunk, hdocument⟩,
    fun ⟨hcount, hchunk, hdocument⟩ => ⟨hcount, hchunk, hdocument⟩⟩

/-- What a chunked store refuses: the document of a reservation takes 24 bytes, and that of a
committed record 44 beside its texts. -/
def ChunkedConfig.limits (config : ChunkedConfig) : Limits where
  claim? := if 24 ≤ config.maxRecordBytes.toNat then none else some "RecordTooLarge"
  commit? record :=
    if config.Fits record then none
    else some (if Chunk.countFor record.content.length config.chunkSize.toNat < UInt32.size
      then "RecordTooLarge" else "Codec/TooManyChunks")
  status? record status :=
    if 44 + record.contentType.utf8ByteSize + encodedSize status ≤ config.maxRecordBytes.toNat
    then none else some "RecordTooLarge"
  commit?_withId record id := by simp only [config.fits_withId record id]; rfl
  status?_withId _ _ := rfl

/-- What is refused is answered by an error of that name, and nothing changes; else the answer is
the expected one, and so is what the backend stands for. -/
def Obeys {σ α : Type} (models : σ → MemoryStore → Prop) (refused? : Option String) (before : σ)
    (out : Except StoreError α × σ) (expected : Except StoreError α × MemoryStore) : Prop :=
  match refused? with
  | some name => ∃ e, e.name = name ∧ out = (.error e, before)
  | none => out.1 = expected.1 ∧ models out.2 expected.2

/-- A backend of which it is known what it refuses. -/
class LimitedBackend (σ : Type) [Backend σ] extends SlotBackend σ where
  /-- The backend stands for the slots and refuses what the limits say. -/
  Limited : Limits → σ → MemoryStore → Prop
  models {limits : Limits} {b : σ} {m : MemoryStore} : Limited limits b m → Models b m
  obeys_claim {limits : Limits} {b : σ} {m : MemoryStore} (h : Limited limits b m) (id : StoreId)
    (lease : Lease) (now : UInt64) :
    Obeys (Limited limits) limits.claim? b (Backend.claimStore id lease now b)
      (Backend.claimStore id lease now m)
  /-- Only records that come under a live lease are looked at. -/
  obeys_commit {limits : Limits} {b : σ} {m : MemoryStore} (h : Limited limits b m)
    {r : Reservation StoreId} {record : ContentRecord} (hid : record.id = r.id)
    (hlength : record.content.length < UInt64.size) (now : UInt64) :
    Obeys (Limited limits) (if m.stores.holds r now then limits.commit? record else none) b
      (Atomic.standing now (Backend.commitStore r record) b) (ChunkedStore.commitAt now r record m)
  obeys_release {limits : Limits} {b : σ} {m : MemoryStore} (h : Limited limits b m)
    (r : Reservation StoreId) :
    Obeys (Limited limits) none b (Backend.releaseStore r b) (Backend.releaseStore r m)
  obeys_updateStatus {limits : Limits} {b : σ} {m : MemoryStore} (h : Limited limits b m)
    (id : StoreId) (status : Status) :
    Obeys (Limited limits) ((m.stores.record? id).bind (limits.status? · status)) b
      (Backend.updateStatus id status b) (Backend.updateStatus id status m)

/-! ## In memory -/

instance : LimitedBackend MemoryStore where
  Limited limits b m := limits = .unlimited ∧ b = m
  models h := h.2
  obeys_claim := by
    rintro _ b _ ⟨rfl, rfl⟩ id lease now
    exact ⟨rfl, rfl, rfl⟩
  obeys_commit := by
    rintro _ b _ ⟨rfl, rfl⟩ r record hid _ now
    have hnone :
        (if b.stores.holds r now then Limits.unlimited.commit? record else none) = none := by
      split <;> rfl
    rw [hnone]
    exact ⟨rfl, rfl, rfl⟩
  obeys_release := by
    rintro _ b _ ⟨rfl, rfl⟩ r
    exact ⟨rfl, rfl, rfl⟩
  obeys_updateStatus := by
    rintro _ b _ ⟨rfl, rfl⟩ id status
    have hnone : (b.stores.record? id).bind (Limits.unlimited.status? · status) = none := by
      cases b.stores.record? id <;> rfl
    rw [hnone]
    exact ⟨rfl, rfl, rfl⟩

/-! ## In chunks -/

namespace ChunkedStore

variable {s : ChunkedStore} {m : MemoryStore} {config : ChunkedConfig}

/-- The store has the settings and stands for the slots. -/
def Limited (limits : Limits) (s : ChunkedStore) (m : MemoryStore) : Prop :=
  ∃ config, limits = config.limits ∧ s.bare = empty config ∧ Models s m

/-- A release is never refused. -/
theorem release_answer (s : ChunkedStore) (r : Reservation StoreId) :
    ∃ released, ((release r).unclocked s).1 = .ok released := by
  unfold release Client.unclocked
  simp only [Client.alone_bind, alone_deleteStore]
  rcases s.stores.deleteIf_cases r.id (·.isLeasedTo r.lease.token) with ⟨_, hdel⟩ | ⟨_, _, _, hdel⟩
  · simp only [hdel, Bool.false_eq_true, if_false, Client.alone_pure]
    exact ⟨false, rfl⟩
  · simp only [hdel, if_true, Client.alone_bind, Client.alone_pure]
    exact ⟨true, rfl⟩

section

variable {writer : StoreId → UInt64}

/-- A change of the status is refused if there is a record and its document becomes too large. -/
theorem Represents.updateStatus_answer (h : Represents s m writer) (id : StoreId)
    (status : Status) :
    (∃ record e, m.stores.record? id = some record ∧
      s.stores.limit < 44 + record.contentType.utf8ByteSize + encodedSize status ∧
      e.name = "RecordTooLarge" ∧
      (ChunkedStore.updateStatus id status).unclocked s = (.error e, s)) ∨
    (∀ record, m.stores.record? id = some record →
      44 + record.contentType.utf8ByteSize + encodedSize status ≤ s.stores.limit) ∧
      ∀ e, ((ChunkedStore.updateStatus id status).unclocked s).1 = .error e →
        e.isRefusal = false := by
  have hfind := h.stores id
  unfold ChunkedStore.updateStatus Client.unclocked
  rw [Client.alone_bind]
  rcases alone_updateStore_cases ⟨s, .still 0⟩ id (fun _ doc => doc.record?.isSome)
      (fun doc => { doc with record? := doc.record?.map fun m => { m with status } })
    with ⟨hnone, hup⟩ | ⟨doc, hdoc, hcases⟩
  · rw [hnone, eq_comm, Option.map_eq_none_iff] at hfind
    have hrecord : m.stores.record? id = none := SlotMap.record?_of_free hfind
    simp only [hup, hrecord]
    refine Or.inr ⟨fun record hsome => (by cases hsome), fun e he => ?_⟩
    cases he
    rfl
  · rw [hdoc, eq_comm, Option.map_eq_some_iff] at hfind
    obtain ⟨slot, hslot, rfl⟩ := hfind
    have hrecord : m.stores.record? id = slot.record? := SlotMap.record?_of_get? hslot
    rw [hrecord]
    cases slot with
    | reserved lease =>
      rcases hcases with ⟨_, hup⟩ | ⟨hacc, _⟩ | ⟨hacc, _⟩
      · simp only [hup]
        refine Or.inr ⟨fun record hsome => (by cases hsome), fun e he => ?_⟩
        cases he
        rfl
      · cases hacc
      · cases hacc
    | committed record =>
      have hsize := encodedSize_committedDoc ⟨id, default⟩ { record with status }
        (pieces s.config record).length
      rcases hcases with ⟨hacc, _⟩ | ⟨_, hlt, hup⟩ | ⟨_, hle, hup⟩
      · cases hacc
      · simp only [hup]
        exact Or.inl ⟨record, _, rfl, hsize ▸ hlt, rfl, rfl⟩
      · simp only [hup]
        refine Or.inr ⟨fun record' hsome => ?_, fun e he => by cases he⟩
        cases hsome
        exact hsize ▸ hle

end

theorem obeys_claim (hbare : s.bare = empty config) (h : Models s m) (id : StoreId) (lease : Lease)
    (now : UInt64) :
    Obeys (Limited config.limits) config.limits.claim? s ((claim id lease now).unclocked s)
      (Backend.claimStore id lease now m) := by
  have hafter : ((claim id lease now).unclocked s).2.bare = empty config :=
    (steady_claim id lease now ⟨s, .still 0⟩).trans hbare
  obtain ⟨hconfig, writer, hrep⟩ := h
  rcases s.claim_answer id lease now with ⟨hlt, hout⟩ | ⟨hle, claimed, hanswer⟩
  · rw [stores_limit_of_bare hbare] at hlt
    rw [show config.limits.claim? = some _ from if_neg (Nat.not_le.mpr hlt)]
    exact ⟨_, rfl, hout⟩
  · rw [stores_limit_of_bare hbare] at hle
    rw [show config.limits.claim? = none from if_pos hle]
    rcases hrep.claim hconfig id lease now with ⟨e, _, hout⟩ | ⟨hsame, hmodels⟩
    · rw [hout] at hanswer
      cases hanswer
    · exact ⟨hsame, config, rfl, hafter, hmodels⟩

theorem obeys_release (hbare : s.bare = empty config) (h : Models s m) (r : Reservation StoreId) :
    Obeys (Limited config.limits) none s ((release r).unclocked s) (Backend.releaseStore r m) := by
  have hafter : ((release r).unclocked s).2.bare = empty config :=
    (steady_release r ⟨s, .still 0⟩).trans hbare
  obtain ⟨hconfig, writer, hrep⟩ := h
  obtain ⟨released, hanswer⟩ := s.release_answer r
  rcases hrep.release hconfig r with ⟨e, _, hout⟩ | ⟨hsame, hmodels⟩
  · rw [hout] at hanswer
    cases hanswer
  · exact ⟨hsame, config, rfl, hafter, hmodels⟩

theorem obeys_updateStatus (hbare : s.bare = empty config) (h : Models s m) (id : StoreId)
    (status : Status) :
    Obeys (Limited config.limits) ((m.stores.record? id).bind (config.limits.status? · status)) s
      ((updateStatus id status).unclocked s) (Backend.updateStatus id status m) := by
  have hafter : ((updateStatus id status).unclocked s).2.bare = empty config :=
    (steady_updateStatus id status ⟨s, .still 0⟩).trans hbare
  have hlimit := stores_limit_of_bare hbare
  obtain ⟨hconfig, writer, hrep⟩ := h
  rcases hrep.updateStatus_answer id status
    with ⟨record, e, hrecord, hlt, he, hout⟩ | ⟨hle, hanswer⟩
  · rw [hlimit] at hlt
    rw [hrecord, Option.bind_some,
      show config.limits.status? record status = some _ from if_neg (Nat.not_le.mpr hlt)]
    exact ⟨e, he, hout⟩
  · have hnone : (m.stores.record? id).bind (config.limits.status? · status) = none := by
      cases hrecord : m.stores.record? id with
      | none => rfl
      | some record => exact if_pos (hlimit ▸ hle record hrecord)
    rw [hnone]
    rcases hrep.updateStatus hconfig id status with ⟨e, he, hout⟩ | ⟨hsame, hmodels⟩
    · rw [hanswer e (congrArg Prod.fst hout)] at he
      cases he
    · exact ⟨hsame, config, rfl, hafter, hmodels⟩

theorem obeys_commit (hbare : s.bare = empty config) (h : Models s m) {r : Reservation StoreId}
    {record : ContentRecord} (hid : record.id = r.id)
    (hlength : record.content.length < UInt64.size) (now : UInt64) :
    Obeys (Limited config.limits)
      (if m.stores.holds r now then config.limits.commit? record else none) s
      (Atomic.standing now (Backend.commitStore r record) s) (commitAt now r record m) := by
  have husable := config_eq_of_bare hbare ▸ h.1
  have hmodels := h
  obtain ⟨hconfig, writer, hrep⟩ := h
  obtain ⟨clock', now', out, hshows, hcommit, hends⟩ :=
    hrep.commit_ends hconfig [] r record hlength (.still now)
  rw [hshows.eq_of_still] at hends
  have hout : Atomic.standing now (Backend.commitStore r record) s = out := by
    change ((((commit s.config [] r record).alone ⟨s, .still now⟩).1,
      ((commit s.config [] r record).alone ⟨s, .still now⟩).2.state) :
        Except StoreError Unit × ChunkedStore) = out
    rw [hcommit]
  have hafter : out.2.bare = empty config := by
    have hsteady := steady_commit s.config [] r record ⟨s, .still now⟩
    rw [hcommit] at hsteady
    exact hsteady.trans hbare
  rw [hout]
  cases hends with
  | mismatch hne => exact absurd hid hne
  | notReserved _ hfree =>
    rw [hfree, if_neg Bool.false_ne_true, commitAt_of_not_held hid hfree]
    exact ⟨rfl, config, rfl, hbare, hmodels⟩
  | refused _ hheld he =>
    obtain ⟨hlarge, hname⟩ := not_fits_of_refuses husable hbare he
    rw [hheld, if_pos rfl, show config.limits.commit? record = some _ from if_neg hlarge]
    exact ⟨_, hname, rfl⟩
  | taken _ hheld htakes =>
    rw [hheld, if_pos rfl, show config.limits.commit? record = none from
      if_pos (fits_of_takes husable hbare htakes), commitAt_of_held hid hheld]
    exact ⟨rfl, config, rfl, hafter, htakes.models⟩

instance : LimitedBackend ChunkedStore where
  Limited := Limited
  models h := h.choose_spec.2.2
  obeys_claim := by
    rintro _ s m ⟨config, rfl, hbare, h⟩ id lease now
    exact obeys_claim hbare h id lease now
  obeys_commit := by
    rintro _ s m ⟨config, rfl, hbare, h⟩ r record hid hlength now
    exact obeys_commit hbare h hid hlength now
  obeys_release := by
    rintro _ s m ⟨config, rfl, hbare, h⟩ r
    exact obeys_release hbare h r
  obeys_updateStatus := by
    rintro _ s m ⟨config, rfl, hbare, h⟩ id status
    exact obeys_updateStatus hbare h id status

end ChunkedStore

end ContentVault
