import ContentVault.Proofs.History.Chronicle
import ContentVault.Proofs.Store.Fitting
set_option autoImplicit false

/-!
# Who may commit

Whether a commit succeeds can be told from what happened to its identifier: the latest claim
has to be the holder's own, not ended and not lapsed.  A chunked store refuses besides what is
too large for it, and nothing else.
-/

namespace ContentVault

/-! ## What is too large -/

namespace ChunkedConfig

/-- The error of a document that is too large for a collection. -/
def tooLarge? {δ : Type} [EncodedSize δ] (config : ChunkedConfig) (collection : String) (doc : δ) :
    Option StoreError :=
  if config.maxRecordBytes.toNat < encodedSize doc then
    some (.recordTooLarge collection (encodedSize doc) config.maxRecordBytes.toNat)
  else none

/-- The error of a blob of too many chunks or with too large a document. -/
def refusedBlob? (config : ChunkedConfig) (r : Reservation StoreId) (record : ContentRecord) :
    Option StoreError :=
  let count := Chunk.countFor record.content.length config.chunkSize.toNat
  if UInt32.size ≤ count then
    some (.codec (.tooManyChunks record.content.length config.chunkSize.toNat))
  else config.tooLarge? "stores" (ChunkedStore.committedDoc r record count)

/-- The error of a file with too large a document. -/
def refusedFile? (config : ChunkedConfig) (r : Reservation FileId) (record : FileRecord) :
    Option StoreError :=
  config.tooLarge? "files" (ChunkedStore.committedFile r record)

end ChunkedConfig

/-! ## The law of commits -/

/-- What a commit answers: it succeeds if the record is for the reserved identifier, the holder is
entitled and nothing is refused; and of what is missing, the first is reported. -/
structure CommitLaw {κ : Type} [Identifier κ] (r : Reservation κ) (payload : κ) (entitled : Prop)
    (refused? : Option StoreError) (answer : Except StoreError Unit) : Prop where
  ok_iff : answer = .ok () ↔ payload = r.id ∧ entitled ∧ refused? = none
  mismatch : payload ≠ r.id → answer = .error (r.mismatch payload)
  notReserved : payload = r.id → ¬entitled → answer = .error r.notReserved
  refused : payload = r.id → entitled → ∀ e, refused? = some e → answer = .error e

theorem CommitLaw.of_ending {κ σ : Type} [Identifier κ] {r : Reservation κ} {payload : κ}
    {held : Bool} {before : σ} {refuses : StoreError → Prop} {takes : σ → Prop}
    {out : Except StoreError Unit × σ} {entitled : Prop} {refused? : Option StoreError}
    (h : Ending r payload held before refuses takes out) (hheld : held = true ↔ entitled)
    (hrefuses : ∀ e, refuses e → refused? = some e) (htakes : ∀ s, takes s → refused? = none) :
    CommitLaw r payload entitled refused? out.1 := by
  cases h with
  | mismatch hid =>
    refine ⟨⟨fun hok => (by cases hok), fun hall => absurd hall.1 hid⟩, fun _ => rfl,
      fun hid' => absurd hid' hid, fun hid' => absurd hid' hid⟩
  | notReserved hid hfree =>
    have hnot : ¬entitled := fun hentitled => by
      rw [hheld.mpr hentitled] at hfree
      cases hfree
    refine ⟨⟨fun hok => (by cases hok), fun hall => absurd hall.2.1 hnot⟩,
      fun hid' => absurd hid hid', fun _ _ => rfl, fun _ hentitled => absurd hentitled hnot⟩
  | @refused e hid hheld' he =>
    have hrefused := hrefuses e he
    refine ⟨⟨fun hok => (by cases hok), fun hall => ?_⟩, fun hid' => absurd hid hid',
      fun _ hnot => absurd (hheld.mp hheld') hnot, fun _ _ e' he' => ?_⟩
    · cases hrefused.symm.trans hall.2.2
    · cases hrefused.symm.trans he'
      rfl
  | @taken after hid hheld' hafter =>
    have hfits := htakes after hafter
    refine ⟨⟨fun _ => ⟨hid, hheld.mp hheld', hfits⟩, fun _ => rfl⟩, fun hid' => absurd hid hid',
      fun _ hnot => absurd (hheld.mp hheld') hnot, fun _ _ e' he' => ?_⟩
    cases hfits.symm.trans he'

/-- A lease is held by whom the events entitle. -/
theorem SlotMap.holds_iff {κ χ ρ : Type} [Ord κ] [Amends χ ρ] {m : SlotMap κ ρ}
    {r : Reservation κ} {events : List (Event χ ρ)} (h : Leads none events (m.get? r.id))
    (now : UInt64) : m.holds r now = true ↔ Event.Entitles events r.lease.token now := by
  have hlive : ∀ lease : Lease, lease.isHeldBy r.lease.token now = true ↔
      lease.token = r.lease.token ∧ now < lease.expiresAt := by
    intro lease
    rw [Lease.isHeldBy, Lease.isLive, Bool.and_eq_true, beq_iff_eq, decide_eq_true_eq]
  constructor
  · intro hheld
    unfold holds at hheld
    rcases hslot : m.get? r.id with _ | ⟨lease⟩ | ⟨record⟩
    · rw [hslot] at hheld
      cases hheld
    · rw [hslot] at hheld
      exact ⟨lease, (h.reserved_iff lease).mp hslot, (hlive lease).mp hheld⟩
    · rw [hslot] at hheld
      cases hheld
  · rintro ⟨lease, hopen, hlease⟩
    rw [holds, (h.reserved_iff lease).mpr hopen]
    exact (hlive lease).mpr hlease

/-! ## In chunks -/

namespace ChunkedStore

variable {s : ChunkedStore} {m : MemoryStore} {config : ChunkedConfig}

/-- No chunk of a cut payload is too large. -/
theorem not_tooLarge (hbare : s.bare = empty config)
    (hroom : config.chunkSize.toNat + 64 ≤ config.maxRecordBytes.toNat) {payload : Bytes}
    {cut : List Chunk} (hcut : Chunk.IsCut payload config.chunkSize.toNat cut) (id : StoreId)
    (writer : UInt64) (e : StoreError) : ¬TooLarge s.chunks (chunkEntries id writer cut) e := by
  rintro ⟨entry, hentry, hlt, _⟩
  obtain ⟨c, hc, rfl⟩ := List.mem_map.mp hentry
  have hdata := hcut.data_length_le c hc
  rw [chunks_limit_of_bare hbare, encodedSize_chunkDoc] at hlt
  change _ < 26 + c.data.length at hlt
  omega

/-- What is refused is what the settings do not allow. -/
theorem refusedBlob?_of_refuses (husable : Usable s.config) (hbare : s.bare = empty config)
    (hroom : config.chunkSize.toNat + 64 ≤ config.maxRecordBytes.toNat)
    {r : Reservation StoreId} {record : ContentRecord} {e : StoreError}
    (h : Refuses s r record e) : config.refusedBlob? r record = some e := by
  have hconfig := config_eq_of_bare hbare
  rw [hconfig] at husable
  have hsize : config.chunkSize.toNat ≠ 0 := fun hzero =>
    husable.chunkSize_ne (UInt64.toNat_inj.mp hzero)
  unfold ChunkedConfig.refusedBlob?
  cases h with
  | count hsplit =>
    rw [hconfig] at hsplit
    obtain ⟨rfl, hcount⟩ := Chunk.split_error hsize hsplit
    exact if_pos hcount
  | chunk hsplit he =>
    rw [hconfig] at hsplit
    exact absurd he (not_tooLarge hbare hroom (.of_split hsplit) _ _ e)
  | document hsplit hlt =>
    rw [hconfig] at hsplit
    have hcut := Chunk.IsCut.of_split hsplit
    have hfew := hcut.numbered.length_lt
    rw [hcut.length_eq] at hfew hlt
    rw [stores_limit_of_bare hbare] at hlt
    rw [tooLarge_stores_of_bare hbare, hcut.length_eq]
    simp only [Nat.not_le.mpr hfew, if_false]
    rw [ChunkedConfig.tooLarge?, if_pos hlt]

theorem refusedBlob?_of_takes (hbare : s.bare = empty config) {r : Reservation StoreId}
    {record : ContentRecord} {after : ChunkedStore} (h : Takes s m r record after) :
    config.refusedBlob? r record = none := by
  obtain ⟨cut, hsplit, _, hle⟩ := h.fits
  rw [config_eq_of_bare hbare] at hsplit
  rw [stores_limit_of_bare hbare] at hle
  have hcut := Chunk.IsCut.of_split hsplit
  have hfew := hcut.numbered.length_lt
  rw [hcut.length_eq] at hfew hle
  unfold ChunkedConfig.refusedBlob?
  simp only [Nat.not_le.mpr hfew, if_false]
  rw [ChunkedConfig.tooLarge?, if_neg (Nat.not_lt.mpr hle)]

theorem refusedFile?_of_lt (hbare : s.bare = empty config) {r : Reservation FileId}
    {record : FileRecord} (h : s.files.limit < encodedSize (committedFile r record)) :
    config.refusedFile? r record = some (s.files.tooLarge (committedFile r record)) := by
  rw [files_limit_of_bare hbare] at h
  rw [tooLarge_files_of_bare hbare, ChunkedConfig.refusedFile?, ChunkedConfig.tooLarge?, if_pos h]

theorem refusedFile?_of_le (hbare : s.bare = empty config) {r : Reservation FileId}
    {record : FileRecord} (h : encodedSize (committedFile r record) ≤ s.files.limit) :
    config.refusedFile? r record = none := by
  rw [files_limit_of_bare hbare] at h
  rw [ChunkedConfig.refusedFile?, ChunkedConfig.tooLarge?, if_neg (Nat.not_lt.mpr h)]

end ChunkedStore

/-! ## After any deeds -/

namespace Chronicle

variable {σ : Type} [Backend σ] [ChronicledBackend σ]

/-- Commits of blobs and of files are lawful, for what is refused. -/
structure CommitsLawfully (c : Chronicle σ)
    (refusedBlob? : Reservation StoreId → ContentRecord → Option StoreError)
    (refusedFile? : Reservation FileId → FileRecord → Option StoreError) : Prop where
  blobs : ∀ (r : Reservation StoreId) (record : ContentRecord) hlength now schedule,
    CommitLaw r record.id (Event.Entitles (c.blobEvents r.id) r.lease.token now)
      (refusedBlob? r record)
      (carryOut (.standing (.commitStore r record hlength now schedule)) c.backend).1
  files : ∀ (r : Reservation FileId) (record : FileRecord) now,
    CommitLaw r record.id (Event.Entitles (c.fileEvents r.id) r.lease.token now)
      (refusedFile? r record)
      (carryOut (.standing (.commitFile r record now)) c.backend).1

end Chronicle

open Chronicle (start)

/-- After any deeds, whether a commit succeeds is told by what happened to the identifier; a chunked
store refuses besides only blobs of too many chunks and documents that are too large. -/
theorem commits_lawfully (deeds : List ((α : Type) × Deed α)) :
    ((start MemoryStore.empty).run deeds).CommitsLawfully (fun _ _ => none) (fun _ _ => none) ∧
    ∀ (config : ChunkedConfig) s, ChunkedStore.create config = .ok s →
      config.chunkSize.toNat + 64 ≤ config.maxRecordBytes.toNat →
      ((start s).run deeds).CommitsLawfully config.refusedBlob? config.refusedFile? := by
  refine ⟨?_, fun config s hcreate hroom => ?_⟩
  · obtain ⟨m, hm⟩ := Chronicle.tells_inMemory deeds
    generalize (start MemoryStore.empty).run deeds = c at hm ⊢
    have hmodels : c.backend = m := hm.models
    subst hmodels
    refine ⟨fun r record hlength now schedule => ?_, fun r record now => ?_⟩
    · exact .of_ending (c.backend.ending_commitAt r record now)
        (SlotMap.holds_iff (hm.blobs r.id) now) (fun _ he => he.elim) fun _ _ => rfl
    · exact .of_ending (c.backend.ending_commitFileAt r record now)
        (SlotMap.holds_iff (hm.files r.id) now) (fun _ he => he.elim) fun _ _ => rfl
  · obtain ⟨⟨m, hm⟩, hbare⟩ := Chronicle.tells_inChunks hcreate deeds
    generalize (start s).run deeds = c at hm hbare ⊢
    obtain ⟨husable, writer, hrep⟩ := hm.models
    refine ⟨fun r record hlength now schedule => ?_, fun r record now => ?_⟩
    · obtain ⟨clock', now', out, hshows, hcommit, hends⟩ :=
        hrep.commit_ends husable schedule r record hlength (.still now)
      rw [hshows.eq_of_still] at hends
      change CommitLaw _ _ _ _
        ((ChunkedStore.commit c.backend.config schedule r record).alone.standing now c.backend).1
      rw [Atomic.standing, hcommit]
      exact .of_ending hends (SlotMap.holds_iff (hm.blobs r.id) now)
        (fun _ => ChunkedStore.refusedBlob?_of_refuses husable hbare hroom)
        fun _ => ChunkedStore.refusedBlob?_of_takes hbare
    · obtain ⟨clock', out, hcommit, hends⟩ := hrep.commitFile_ends husable r record (.still now)
      change CommitLaw _ _ _ _
        (Atomic.standing now (ChunkedStore.commitFile · r record) c.backend).1
      rw [Atomic.standing, hcommit]
      exact .of_ending hends (SlotMap.holds_iff (hm.files r.id) now)
        (fun _ he => he.2 ▸ ChunkedStore.refusedFile?_of_lt hbare he.1)
        fun _ hafter => ChunkedStore.refusedFile?_of_le hbare hafter.1

/-- A blob whose lease lapsed is claimed again: the first holder may not commit any more, but the
second one may, whatever end of the lease is shown. -/
theorem commits_lawfully_of_reclaim :
    let config : ChunkedConfig := ⟨2, 128, 1⟩
    let blob : ContentRecord := .fresh ⟨7, 0⟩ [1, 2, 3] "text/plain" 3
    let deeds : List ((α : Type) × Deed α) :=
      [⟨_, .standing (.claimStore blob.id ⟨1, 100⟩ 5)⟩,
       ⟨_, .standing (.claimStore blob.id ⟨2, 200⟩ 150)⟩]
    let c := (start (ChunkedStore.empty config)).run deeds
    let commit (lease : Lease) : Deed Unit :=
      .standing (.commitStore ⟨blob.id, lease⟩ blob (by decide) 160 [])
    ChunkedStore.create config = .ok (.empty config) ∧
      config.chunkSize.toNat + 64 ≤ config.maxRecordBytes.toNat ∧
      (carryOut (commit ⟨1, 1000⟩) c.backend).1
        = .error (Reservation.notReserved ⟨blob.id, ⟨1, 1000⟩⟩) ∧
      (carryOut (commit ⟨2, 0⟩) c.backend).1 = .ok () := by
  intro config blob deeds c commit
  have hcreate : ChunkedStore.create config = .ok (.empty config) := rfl
  have hroom : config.chunkSize.toNat + 64 ≤ config.maxRecordBytes.toNat := by decide
  have hlaw := (commits_lawfully deeds).2 config _ hcreate hroom
  have hevents : c.blobEvents blob.id = [.claimed ⟨2, 200⟩, .claimed ⟨1, 100⟩] := by
    decide +kernel
  have hlatest : Event.OpenClaim (c.blobEvents blob.id) ⟨2, 200⟩ :=
    ⟨[], _, hevents, fun event hevent => (List.not_mem_nil hevent).elim⟩
  refine ⟨hcreate, hroom, ?_, ?_⟩
  · refine (hlaw.blobs ⟨blob.id, ⟨1, 1000⟩⟩ blob (by decide) 160 []).notReserved rfl ?_
    rintro ⟨lease, ⟨later, earlier, hsplit, hlater⟩, htoken, _⟩
    rw [hevents] at hsplit
    cases later with
    | nil =>
      cases hsplit
      cases htoken
    | cons event later =>
      rw [← (List.cons.inj hsplit).1] at hlater
      cases hlater _ List.mem_cons_self
  · exact (hlaw.blobs ⟨blob.id, ⟨2, 0⟩⟩ blob (by decide) 160 []).ok_iff.mpr
      ⟨rfl, ⟨_, hlatest, rfl, by decide⟩, by decide⟩

end ContentVault
