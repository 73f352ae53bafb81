import ContentVault.Proofs.Store.Contents
import ContentVault.Proofs.Vault.Session
set_option autoImplicit false

/-!
# What an ingest adds

An ingest is work on blobs: whatever it is answered, no file changes.  So all that may come of
it is that it fails, that the content is found, or that one blob more is kept.
-/

namespace ContentVault

open Reserver (outcome)

/-! ## Work on blobs -/

/-- The request is about blobs, or does not go to the backend; what it commits fits into the memory
of a machine. -/
def Request.IsOnBlobs : {α : Type} → Request α → Prop
  | _, .claimStore .. | _, .releaseStore _ | _, .getStore _ | _, .matchHash _
  | _, .updateStatus .. => True
  | _, .commitStore _ _ record => record.content.length < UInt64.size
  | _, r => r.IsLocal

/-- No request of the procedure is about files. -/
abbrev IsOnBlobs {α : Type} (p : Procedure α) : Prop := Asks Request.IsOnBlobs p

section

variable {α : Type}

theorem isOnBlobs_ask {r : Request α} (hr : r.IsOnBlobs) : IsOnBlobs (ask r) := asks_ask hr

theorem Request.IsLocal.isOnBlobs {r : Request α} (h : r.IsLocal) : r.IsOnBlobs := by
  cases r with
  | _ => first | exact h | exact h.elim

theorem IsLocal.isOnBlobs {p : Procedure α} (h : IsLocal p) : IsOnBlobs p :=
  h.imp Request.IsLocal.isOnBlobs

end

section

variable {σ : Type} [Backend σ] [SlotBackend σ]

theorem MemoryStore.files_commitAt (now : UInt64) (r : Reservation StoreId)
    (record : ContentRecord) (m : MemoryStore) :
    (ChunkedStore.commitAt now r record m).2.files = m.files := by
  rw [ChunkedStore.commitAt_eq]
  split
  · rfl
  · rfl

/-- A request about blobs leaves the files as they are. -/
theorem World.files_answer {w : World σ} {m : MemoryStore} (h : SlotBackend.Models w.backend m)
    {α : Type} {r : Request α} (hr : r.IsOnBlobs) :
    ∃ m', SlotBackend.Models (World.answer r w).2.backend m' ∧ m'.files = m.files := by
  by_cases hlocal : r.IsLocal
  · refine ⟨m, ?_, rfl⟩
    rw [(World.answer_withBackend hlocal w w.backend).2]
    exact h
  cases r with
  | claimStore id lease now =>
    exact (SlotBackend.claimStore h id lease now).exists_models h rfl rfl
  | commitStore kind r record =>
    obtain ⟨clock', now, out, _, hcommit, hfollows⟩ :=
      SlotBackend.commitStore h r record hr (w.clock kind)
    obtain ⟨m', hmodels, hfiles⟩ := hfollows.exists_models h (P := fun m' => m'.files = m.files) rfl
      (m.files_commitAt now r record)
    have hbackend : (World.answer (.commitStore kind r record) w).2.backend = out.2 :=
      (World.onClocked_eq hcommit).2
    exact ⟨m', hbackend ▸ hmodels, hfiles⟩
  | releaseStore r => exact (SlotBackend.releaseStore h r).exists_models h rfl rfl
  | getStore id =>
    refine ⟨m, ?_, rfl⟩
    change SlotBackend.Models (Backend.getStore id w.backend).2 m
    rw [SlotBackend.getStore h]
    exact h
  | matchHash hash =>
    refine ⟨m, ?_, rfl⟩
    change SlotBackend.Models (Backend.matchHash hash w.backend).2 m
    rw [SlotBackend.matchHash h]
    exact h
  | updateStatus id status =>
    exact (SlotBackend.updateStatus h id status).exists_models h rfl rfl
  | _ => exact (hlocal hr).elim

/-- Work on blobs leaves the files as they are. -/
theorem IsOnBlobs.files_run {α : Type} {p : Procedure α} (hp : IsOnBlobs p) (w : World σ)
    {m : MemoryStore} (h : SlotBackend.Models w.backend m) :
    ∃ m', SlotBackend.Models (w.run p).2.backend m' ∧ m'.files = m.files := by
  induction p generalizing w m with
  | done a => exact ⟨m, h, rfl⟩
  | ask r next ih =>
    obtain ⟨m₁, hmodels₁, hfiles₁⟩ := World.files_answer h hp.1
    obtain ⟨m₂, hmodels₂, hfiles₂⟩ := ih _ (hp.2 (World.answer r w).1) _ hmodels₁
    exact ⟨m₂, hmodels₂, hfiles₂.trans hfiles₁⟩

end

/-! ## An ingest is work on blobs -/

namespace ContentStore

variable (s : ContentStore)

theorem isOnBlobs_unlessPassed {α : Type} (deadline : Deadline)
    {p : Procedure (Except VaultError α)} (hp : IsOnBlobs p) :
    IsOnBlobs (unlessPassed deadline p) := by
  refine (isLocal_passed deadline).isOnBlobs.bind fun passed => ?_
  cases passed with
  | true => trivial
  | false => exact hp

theorem isOnBlobs_abandonWith {α : Type} (r : Reservation StoreId) (answer : Except VaultError α) :
    IsOnBlobs (abandonWith r answer) :=
  ⟨trivial, fun _ => trivial⟩

theorem isOnBlobs_findDuplicate [Codec] (hash : UInt32) (data compressed : Bytes) :
    IsOnBlobs (findDuplicate hash data compressed) :=
  (isOnBlobs_ask (r := .matchHash hash) trivial).bind fun _ => trivial

section

variable {data compressed : Bytes} (hlength : compressed.length < UInt64.size)
  (contentType : String) (deadline : Deadline)

include hlength

theorem isOnBlobs_commitFresh (r : Reservation StoreId) :
    IsOnBlobs (s.commitFresh r data compressed contentType) := by
  refine Asks.bind (isOnBlobs_ask (r := .commitStore ..) hlength) fun done => ?_
  cases done with
  | error e => exact isOnBlobs_abandonWith r _
  | ok => trivial

theorem isOnBlobs_ingestReserved [Codec] (r : Reservation StoreId) (hash : UInt32) :
    IsOnBlobs (s.ingestReserved r hash data compressed contentType deadline) := by
  refine (isOnBlobs_findDuplicate hash data compressed).bind fun found => ?_
  rcases found with e | _ | existing
  · exact isOnBlobs_abandonWith r _
  · refine (isLocal_passed deadline).isOnBlobs.bind fun passed => ?_
    cases passed with
    | true => exact isOnBlobs_abandonWith r _
    | false => exact s.isOnBlobs_commitFresh hlength contentType r
  · exact isOnBlobs_abandonWith r _

theorem isOnBlobs_ingestExclusive [Codec] (candidate : StoreId) :
    IsOnBlobs (s.ingestExclusive candidate data compressed contentType deadline) := by
  refine (isOnBlobs_findDuplicate candidate.hash data compressed).bind fun found => ?_
  rcases found with e | _ | existing
  · trivial
  · refine (s.reserver.asks_reserve Request.IsLocal.isOnBlobs
      (fun id lease now => isOnBlobs_ask (r := .claimStore id lease now) trivial) candidate
      deadline).bind fun reserved => ?_
    cases reserved with
    | error e => trivial
    | ok r => exact s.isOnBlobs_ingestReserved hlength contentType deadline r candidate.hash
  · trivial

end

theorem isOnBlobs_ingest [Codec] {data : Bytes} (contentType : String) (deadline : Deadline)
    (hlength : (Codec.compress data s.compressionLevel).length < UInt64.size) :
    IsOnBlobs (s.ingest data contentType deadline) := by
  refine isOnBlobs_unlessPassed deadline
    ((isOnBlobs_ask (r := .seedStamp) trivial).bind fun _ => ?_)
  refine isOnBlobs_unlessPassed deadline
    ((isOnBlobs_ask (r := .enter (stripe (s.checksum data))) trivial).bind fun _ => ?_)
  refine (s.isOnBlobs_ingestExclusive hlength contentType deadline _).bind fun _ => ?_
  exact (isOnBlobs_ask (r := .leave (stripe (s.checksum data))) trivial).bind fun _ => trivial

end ContentStore

/-! ## What may come of content -/

section

variable [Codec]

/-- Content that is taken in fails to be stored, is found, or is one blob more. -/
inductive Intake (checksum : Bytes → UInt32) (data : Bytes) (contentType : String) (c : Contents) :
    Except VaultError Ingested → Contents → Prop where
  | failed (e : VaultError) : Intake checksum data contentType c (.error e) c
  | found {id : StoreId} {existing : ContentRecord} (hrecord : c.blob? id = some existing)
    (hdata : existing.decompressed = .ok data) :
    Intake checksum data contentType c (.ok ⟨existing, true⟩) c
  | stored {record : ContentRecord} (hhash : record.id.hash = checksum data)
    (hnone : c.blob? record.id = none)
    (habsent : ∀ id old, id.hash = checksum data → c.blob? id = some old →
      old.decompressed ≠ .ok data)
    (hdata : record.decompressed = .ok data) (htype : record.contentType = contentType)
    (hstatus : record.status = .inProgress) :
    Intake checksum data contentType c (.ok ⟨record, false⟩) (c.putBlob record)

namespace Intake

variable {checksum : Bytes → UInt32} {data : Bytes} {contentType : String} {c c' : Contents}

theorem file?_eq {taken : Except VaultError Ingested}
    (h : Intake checksum data contentType c taken c') : c'.file? = c.file? := by
  cases h with
  | failed e => rfl
  | found hrecord hdata => rfl
  | stored => exact c.file?_putBlob _

/-- Whatever comes of it, no content is lost. -/
theorem grows {taken : Except VaultError Ingested}
    (h : Intake checksum data contentType c taken c') (id : StoreId) (content : Bytes)
    (hholds : c.HoldsUnder id content) : c'.HoldsUnder id content := by
  cases h with
  | failed e => exact hholds
  | found hrecord hdata => exact hholds
  | stored hhash hnone => exact Contents.holdsUnder_putBlob hnone hholds

/-- Content that was taken in is held by the blob that is answered. -/
theorem holdsUnder {blob : Ingested} (h : Intake checksum data contentType c (.ok blob) c')
    (hkeyed : ∀ id record, c.blob? id = some record → record.id = id) :
    c'.HoldsUnder blob.record.id data := by
  cases h with
  | @found id existing hrecord hdata =>
    rw [← hkeyed id existing hrecord] at hrecord
    exact ⟨existing, hrecord, hdata⟩
  | @stored record hhash hnone habsent hdata =>
    refine ⟨record, ?_, hdata⟩
    rw [Contents.blob?_putBlob, if_pos rfl]

end Intake

end

section

variable {σ : Type} [Backend σ] [FileBackend σ] {w : World σ} {c : Contents}

/-- Work on blobs leaves the files that a backend keeps. -/
theorem IsOnBlobs.file?_run {α : Type} {p : Procedure α} (hp : IsOnBlobs p) (h : Keeps w.backend c)
    {c' : Contents} (h' : Keeps (w.run p).2.backend c') : c'.file? = c.file? := by
  obtain ⟨m, hmodels, rfl⟩ := h
  obtain ⟨m', hmodels', hfiles⟩ := hp.files_run w hmodels
  have hc' : c' = m'.contents := h'.unique ⟨m', hmodels', rfl⟩
  rw [hc', MemoryStore.contents, hfiles]
  rfl

/-- An ingest takes the content in, and the backend keeps what comes of it. -/
theorem ContentStore.intake_ingest [Codec] (s : ContentStore) (h : Keeps w.backend c) {data : Bytes}
    (hfaithful : Faithful s.compressionLevel data) (contentType : String) (deadline : Deadline) :
    let out := outcome w (s.ingest data contentType deadline)
    ∃ c', Intake s.checksum data contentType c out.1 c' ∧ Keeps out.2 c' := by
  intro out
  by_cases htime : deadline.isExpired w.timer = true
  · have hout : out = (.error (.store .timeout), w.backend) :=
      s.outcome_ingest_of_expired data contentType htime
    rw [hout]
    exact ⟨c, .failed _, h⟩
  rw [Bool.not_eq_true] at htime
  obtain ⟨m, hmodels, hm⟩ := h
  have hspared : ∀ {c'}, Keeps out.2 c' → c'.file? = c.file? := fun h' =>
    (s.isOnBlobs_ingest contentType deadline hfaithful.compressed_lt).file?_run ⟨m, hmodels, hm⟩ h'
  rcases s.ingest_cases hmodels contentType htime hfaithful.decompress_eq hfaithful.length_lt
      hfaithful.compressed_lt
    with ⟨id, existing, _, hrecord, hdata, hout⟩ | ⟨habsent, m', hsettled, hmodels'⟩
  · have hblob : c.blob? id = some existing := by
      rw [← hm]
      exact hrecord
    rw [show out = _ from hout]
    exact ⟨c, .found hblob hdata, m, hmodels, hm⟩
  · have hkeeps : Keeps out.2 m'.contents := ⟨m', hmodels', rfl⟩
    refine ⟨m'.contents, ?_, hkeeps⟩
    change Settled _ _ _ _ _ out.1 m' at hsettled
    generalize out.1 = answer at hsettled
    subst hm
    cases hsettled with
    | failed hsame =>
      have hcontents : m'.contents = m.contents := Contents.ext (funext hsame) (hspared hkeeps)
      rw [hcontents]
      exact .failed _
    | stored hhash hnone hrecord? =>
      rename_i id
      let record : ContentRecord := .fresh id (Codec.compress data s.compressionLevel)
        contentType (UInt64.ofNat data.length)
      have hcontents : m'.contents = m.contents.putBlob record := by
        refine Contents.ext (funext fun id' => ?_) (hspared hkeeps)
        rw [Contents.blob?_putBlob]
        exact hrecord? id'
      rw [hcontents]
      exact .stored hhash hnone habsent
        (ContentRecord.decompressed_fresh hfaithful.decompress_eq hfaithful.length_lt) rfl rfl

end

end ContentVault
