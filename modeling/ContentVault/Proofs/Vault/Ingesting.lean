import ContentVault.Proofs.Store.Records
import ContentVault.Proofs.Vault.Reserving
import ContentVault.Vault.ContentStore
set_option autoImplicit false

/-!
# Ingesting over any backend

An ingest finds the content among the committed blobs of its checksum and writes nothing; or
it commits one record under an identifier of that checksum that was not committed; or it
fails and what is committed stays the same.
-/

namespace ContentVault

open MemoryStore (SameRecords)
open Reserver (outcome)

/-! ## Records and the content they hold -/

section

variable [Codec]

namespace ContentRecord

theorem decompressed_eq_ok_iff (record : ContentRecord) (data : Bytes) :
    record.decompressed = .ok data ↔
      Codec.decompress record.content = .ok data ∧ data.length = record.fileSize.toNat := by
  rw [← Codec.decompressExact_eq_ok_iff, decompressed]
  cases Codec.decompressExact record.content record.fileSize.toNat with
  | error e => exact ⟨nofun, nofun⟩
  | ok out => rw [Except.ok.injEq, Except.ok.injEq]

/-- What is decompressed is compared with the content. -/
theorem decompressed_beq_iff (record : ContentRecord) (data : Bytes) :
    (match record.decompressed with
      | .ok bytes => bytes == data
      | .error _ => false) = true ↔ record.decompressed = .ok data := by
  cases record.decompressed with
  | error e => exact ⟨nofun, nofun⟩
  | ok bytes => rw [beq_iff_eq, Except.ok.injEq]

/-- A fresh record of compressed content holds the content. -/
theorem decompressed_fresh {id : StoreId} {data compressed : Bytes} {contentType : String}
    (hround : Codec.decompress compressed = .ok data) (hlength : data.length < UInt64.size) :
    (fresh id compressed contentType (UInt64.ofNat data.length)).decompressed = .ok data := by
  rw [decompressed_eq_ok_iff]
  refine ⟨hround, ?_⟩
  rw [fresh, UInt64.toNat_ofNat', Nat.mod_eq_of_lt hlength]

end ContentRecord

namespace ContentStore

/-- However it is found out, a record holds content if it decompresses to it. -/
theorem holds_iff {data compressed : Bytes} (record : ContentRecord)
    (hround : Codec.decompress compressed = .ok data) (hlength : data.length < UInt64.size) :
    holds data compressed record = true ↔ record.decompressed = .ok data := by
  have hsize : record.fileSize = UInt64.ofNat data.length ↔
      data.length = record.fileSize.toNat := by
    rw [← UInt64.toNat_inj, UInt64.toNat_ofNat', Nat.mod_eq_of_lt hlength, eq_comm]
  unfold holds
  rw [Bool.and_eq_true, Bool.or_eq_true, beq_iff_eq, beq_iff_eq, hsize]
  constructor
  · rintro ⟨hlength, hcontent | hbytes⟩
    · rw [ContentRecord.decompressed_eq_ok_iff, hcontent]
      exact ⟨hround, hlength⟩
    · exact (record.decompressed_beq_iff data).mp hbytes
  · intro hdecompressed
    exact ⟨((record.decompressed_eq_ok_iff data).mp hdecompressed).2,
      Or.inr ((record.decompressed_beq_iff data).mpr hdecompressed)⟩

end ContentStore

end

/-! ## Steps of an ingest -/

section

variable {σ : Type} [Backend σ]

theorem Reserver.outcome_bind {α β : Type} (w : World σ) (p : Procedure α)
    (f : α → Procedure β) : outcome w (p >>= f) = outcome (w.run p).2 (f (w.run p).1) := by
  unfold outcome
  rw [World.run_bind]

theorem World.run_passed (w : World σ) (deadline : Deadline) :
    w.run deadline.passed = (deadline.isExpired w.timer, w) := rfl

namespace ContentStore

/-- The candidate for content, with the stamp that is drawn for it. -/
def candidate (s : ContentStore) (data : Bytes) (w : World σ) : StoreId :=
  ⟨s.checksum data, (w.run (ask .seedStamp)).1⟩

/-- The surroundings of an ingest that holds its lock. -/
def locking (s : ContentStore) (data : Bytes) (w : World σ) : World σ :=
  ((w.run (ask .seedStamp)).2.run (ask (.enter (stripe (s.checksum data))))).2

/-- An ingest that does not come too late is exclusive. -/
theorem outcome_ingest [Codec] (s : ContentStore) (data : Bytes) (contentType : String)
    (deadline : Deadline) {w : World σ} (htime : deadline.isExpired w.timer = false) :
    outcome w (s.ingest data contentType deadline)
      = outcome (s.locking data w) (s.ingestExclusive (s.candidate data w) data
          (Codec.compress data s.compressionLevel) contentType deadline) := by
  -- Drawing the stamp takes no time.
  have hstill : deadline.isExpired (w.run (ask .seedStamp)).2.timer = false := htime
  unfold ingest unlessPassed
  simp only [Reserver.outcome_bind, World.run_passed, htime, hstill, Bool.false_eq_true, if_false]
  rfl

/-- An ingest that comes too late does nothing. -/
theorem outcome_ingest_of_expired [Codec] (s : ContentStore) (data : Bytes) (contentType : String)
    {deadline : Deadline} {w : World σ} (htime : deadline.isExpired w.timer = true) :
    outcome w (s.ingest data contentType deadline) = (.error (.store .timeout), w.backend) := by
  unfold ingest unlessPassed
  simp only [Reserver.outcome_bind, World.run_passed, htime, if_true]
  rfl

end ContentStore

variable [SlotBackend σ] {w : World σ} {m : MemoryStore}

/-- A reservation takes a slot of the candidate's checksum that is not committed. -/
theorem Reserver.reserve_cases (r : Reserver) (candidate : StoreId) (deadline : Deadline)
    (h : SlotBackend.Models w.backend m) :
    let out := outcome w (r.reserve candidate deadline)
    (∃ e, out.1 = .error e ∧ SlotBackend.Models out.2 m) ∨
    (∃ reservation m', out.1 = .ok reservation ∧ reservation.id.hash = candidate.hash ∧
      m.stores.record? reservation.id = none ∧ SameRecords m m' ∧
      SlotBackend.Models out.2 m') := by
  intro out
  have hfollows := r.follows_reserve candidate deadline w h
  have hcases := r.attempts_cases candidate deadline (P := fun id => id.hash = candidate.hash)
    (fun _ _ hid => hid) r.policy.maxAttempts.toNat 0 candidate rfl (w.withBackend m)
  rcases hfollows with ⟨e, _, hout⟩ | ⟨hanswer, hmodels⟩
  · refine Or.inl ⟨e, congrArg Prod.fst hout, ?_⟩
    rw [show out = (.error e, w.backend) from hout]
    exact h
  · rcases hcases with ⟨e, _, hexpected⟩ | ⟨reservation, now, hhash, hclaim, hexpected⟩
    · rw [show outcome (w.withBackend m) (r.reserve candidate deadline) = _ from hexpected]
        at hanswer hmodels
      exact Or.inl ⟨e, hanswer, hmodels⟩
    · rw [show outcome (w.withBackend m) (r.reserve candidate deadline) = _ from hexpected]
        at hanswer hmodels
      obtain ⟨hnone, hsame⟩ := MemoryStore.sameRecords_claim hclaim
      exact Or.inr ⟨reservation, _, hanswer, hhash, hnone, hsame, hmodels⟩

namespace ContentStore

theorem run_ask_matchHash (h : SlotBackend.Models w.backend m) (hash : UInt32) :
    w.run (ask (.matchHash hash)) = (.ok (m.matchHash hash), w) := by
  change w.onBackend (Backend.matchHash hash) = _
  rw [World.onBackend, SlotBackend.matchHash h]

theorem run_findDuplicate [Codec] (h : SlotBackend.Models w.backend m) (hash : UInt32)
    (data compressed : Bytes) :
    w.run (findDuplicate hash data compressed)
      = (.ok ((m.matchHash hash).find? (holds data compressed)), w) := by
  unfold findDuplicate
  rw [World.run_bind, run_ask_matchHash h]
  rfl

/-- Giving a reservation up ends as it should and leaves what is committed. -/
theorem outcome_abandonWith {α : Type} (h : SlotBackend.Models w.backend m)
    (r : Reservation StoreId) (answer : Except VaultError α) :
    (outcome w (abandonWith r answer)).1 = answer ∧
      ∃ m', SameRecords m m' ∧ SlotBackend.Models (outcome w (abandonWith r answer)).2 m' := by
  have hbackend : (outcome w (abandonWith r answer)).2 = (Backend.releaseStore r w.backend).2 := rfl
  refine ⟨rfl, ?_⟩
  rw [hbackend]
  obtain ⟨m', hmodels, hsame⟩ :=
    (SlotBackend.releaseStore h r).exists_models h (.refl m) (m.sameRecords_release r)
  exact ⟨m', hsame, hmodels⟩

/-! ## Content that is not stored yet -/

/-- What may come of content that is not stored: nothing, or one more record. -/
inductive Settled (m : MemoryStore) (hash : UInt32) (compressed : Bytes) (contentType : String)
    (fileSize : UInt64) : Except VaultError Ingested → MemoryStore → Prop where
  | failed {e : VaultError} {m' : MemoryStore} (hsame : SameRecords m m') :
    Settled m hash compressed contentType fileSize (.error e) m'
  | stored {id : StoreId} {m' : MemoryStore} (hhash : id.hash = hash)
    (hnone : m.stores.record? id = none)
    (hrecord? : ∀ id', m'.stores.record? id' = if id' = id then
      some (.fresh id compressed contentType fileSize) else m.stores.record? id') :
    Settled m hash compressed contentType fileSize
      (.ok ⟨.fresh id compressed contentType fileSize, false⟩) m'

/-- An answer and a backend that are settled. -/
def Settles (m : MemoryStore) (hash : UInt32) (compressed : Bytes) (contentType : String)
    (fileSize : UInt64) (out : Except VaultError Ingested × σ) : Prop :=
  ∃ m', Settled m hash compressed contentType fileSize out.1 m' ∧ SlotBackend.Models out.2 m'

variable {hash : UInt32} {data compressed : Bytes} {contentType : String}

/-- What is settled after others have reserved is settled before. -/
theorem Settled.of_sameRecords {m₀ : MemoryStore} {fileSize : UInt64}
    {answer : Except VaultError Ingested} {m' : MemoryStore} (hsame : SameRecords m₀ m)
    (h : Settled m hash compressed contentType fileSize answer m') :
    Settled m₀ hash compressed contentType fileSize answer m' := by
  cases h with
  | failed hsame' => exact .failed (hsame.trans hsame')
  | stored hhash hnone hrecord? =>
    refine .stored hhash ((hsame _).symm.trans hnone) fun id' => ?_
    rw [hrecord?, hsame]

theorem settles_abandonWith (h : SlotBackend.Models w.backend m) (r : Reservation StoreId)
    (e : VaultError) (fileSize : UInt64) :
    Settles m hash compressed contentType fileSize (outcome w (abandonWith r (.error e))) := by
  obtain ⟨hanswer, m', hsame, hmodels⟩ :=
    outcome_abandonWith h r (.error e : Except VaultError Ingested)
  refine ⟨m', ?_, hmodels⟩
  rw [hanswer]
  exact .failed hsame

/-- A commit adds the fresh record, or fails and the reservation is given up. -/
theorem settles_commitFresh (s : ContentStore) (h : SlotBackend.Models w.backend m)
    (r : Reservation StoreId) (hnone : m.stores.record? r.id = none)
    (hlength : compressed.length < UInt64.size) :
    Settles m r.id.hash compressed contentType (UInt64.ofNat data.length)
      (outcome w (s.commitFresh r data compressed contentType)) := by
  obtain ⟨clock', now, out, _, hcommit, hfollows⟩ := SlotBackend.commitStore h r
    (.fresh r.id compressed contentType (UInt64.ofNat data.length)) hlength
    (w.clock s.reserver.clock)
  have hrun : w.run (s.reserver.commit r
      (.fresh r.id compressed contentType (UInt64.ofNat data.length)))
        = (out.1, { w with backend := out.2 }.setClock s.reserver.clock clock') := by
    change w.onClocked s.reserver.clock (Backend.commitStore r _) = _
    rw [World.onClocked, hcommit]
  have hbackend : ({ w with backend := out.2 }.setClock s.reserver.clock clock').backend
      = out.2 := by
    cases s.reserver.clock <;> rfl
  unfold commitFresh
  rw [Reserver.outcome_bind, hrun]
  generalize { w with backend := out.2 }.setClock s.reserver.clock clock' = w' at hbackend ⊢
  rcases hfollows with ⟨e, _, rfl⟩ | ⟨hanswer, hmodels⟩
  · exact settles_abandonWith (hbackend ▸ h) r (.store e) _
  · by_cases hheld : (m.stores.get? r.id).any (·.isHeldBy r.lease.token now) = true
    · rw [ChunkedStore.commitAt_of_held rfl hheld] at hanswer hmodels
      rw [hanswer]
      refine ⟨_, .stored rfl hnone fun id => ?_, hbackend ▸ hmodels⟩
      exact SlotMap.record?_insert m.stores r.id id _
    · rw [Bool.not_eq_true] at hheld
      rw [ChunkedStore.commitAt_of_not_held rfl hheld] at hanswer hmodels
      rw [hanswer]
      exact settles_abandonWith (hbackend ▸ hmodels) r _ _

/-- Under a reservation, content that is not stored is looked for once more and committed. -/
theorem settles_ingestReserved [Codec] (s : ContentStore) (h : SlotBackend.Models w.backend m)
    (r : Reservation StoreId) (hnone : m.stores.record? r.id = none)
    (habsent : (m.matchHash hash).find? (holds data compressed) = none)
    (hlength : compressed.length < UInt64.size) (deadline : Deadline) :
    Settles m r.id.hash compressed contentType (UInt64.ofNat data.length)
      (outcome w (s.ingestReserved r hash data compressed contentType deadline)) := by
  unfold ingestReserved
  rw [Reserver.outcome_bind, run_findDuplicate h, habsent]
  simp only [Reserver.outcome_bind, World.run_passed]
  by_cases htime : deadline.isExpired w.timer = true
  · simp only [htime, if_true]
    exact settles_abandonWith h r _ _
  · simp only [htime]
    exact s.settles_commitFresh h r hnone hlength

/-! ## An ingest from beginning to end -/

/-- Content that is not stored is reserved and committed. -/
theorem settles_ingestExclusive [Codec] (s : ContentStore) (h : SlotBackend.Models w.backend m)
    (candidate : StoreId)
    (habsent : (m.matchHash candidate.hash).find? (holds data compressed) = none)
    (hlength : compressed.length < UInt64.size) (deadline : Deadline) :
    Settles m candidate.hash compressed contentType (UInt64.ofNat data.length)
      (outcome w (s.ingestExclusive candidate data compressed contentType deadline)) := by
  unfold ingestExclusive
  rw [Reserver.outcome_bind, run_findDuplicate h, habsent]
  simp only [Reserver.outcome_bind]
  have hcases := s.reserver.reserve_cases candidate deadline h
  unfold outcome at hcases
  generalize w.run (s.reserver.reserve candidate deadline) = reserved at hcases ⊢
  obtain ⟨answer, w'⟩ := reserved
  rcases hcases with ⟨e, rfl, hmodels⟩ | ⟨r, m', rfl, hhash, hnone, hsame, hmodels⟩
  · exact ⟨m, .failed (.refl m), hmodels⟩
  · obtain ⟨m'', hsettled, hmodels⟩ := s.settles_ingestReserved hmodels r ((hsame r.id).trans hnone)
      (hsame.find?_matchHash_eq_none habsent) hlength deadline
    rw [hhash] at hsettled
    exact ⟨m'', hsettled.of_sameRecords hsame, hmodels⟩

/-- Content that is stored is found and nothing is written. -/
theorem outcome_ingestExclusive_of_some [Codec] (s : ContentStore)
    (h : SlotBackend.Models w.backend m) (candidate : StoreId) {existing : ContentRecord}
    (hfound : (m.matchHash candidate.hash).find? (holds data compressed) = some existing)
    (deadline : Deadline) :
    outcome w (s.ingestExclusive candidate data compressed contentType deadline)
      = (.ok ⟨existing, true⟩, w.backend) := by
  unfold ingestExclusive
  rw [Reserver.outcome_bind, run_findDuplicate h, hfound]
  rfl

/-- An ingest in time finds the content and writes nothing, or finds that it is not stored and
settles it. -/
theorem ingest_cases [Codec] (s : ContentStore) (h : SlotBackend.Models w.backend m) {data : Bytes}
    (contentType : String) {deadline : Deadline} (htime : deadline.isExpired w.timer = false)
    (hround : Codec.decompress (Codec.compress data s.compressionLevel) = .ok data)
    (hlength : data.length < UInt64.size)
    (hcompressed : (Codec.compress data s.compressionLevel).length < UInt64.size) :
    let out := outcome w (s.ingest data contentType deadline)
    (∃ id existing, id.hash = s.checksum data ∧ m.stores.record? id = some existing ∧
      existing.decompressed = .ok data ∧ out = (.ok ⟨existing, true⟩, w.backend)) ∨
    ((∀ id record, id.hash = s.checksum data → m.stores.record? id = some record →
        record.decompressed ≠ .ok data) ∧
      Settles m (s.checksum data) (Codec.compress data s.compressionLevel) contentType
        (UInt64.ofNat data.length) out) := by
  intro out
  have hout : out = _ := s.outcome_ingest data contentType deadline htime
  have hmodels : SlotBackend.Models (s.locking data w).backend m := h
  cases hfind : (m.matchHash (s.checksum data)).find?
      (holds data (Codec.compress data s.compressionLevel)) with
  | some existing =>
    have hmem := List.mem_of_find?_eq_some hfind
    obtain ⟨id, hid, hrecord⟩ := (m.mem_matchHash_iff _ existing).mp hmem
    have hheld := (holds_iff existing hround hlength).mp (List.find?_some hfind)
    refine Or.inl ⟨id, existing, hid, hrecord, hheld, ?_⟩
    rw [hout]
    exact s.outcome_ingestExclusive_of_some hmodels (s.candidate data w) hfind deadline
  | none =>
    refine Or.inr ⟨fun id record hid hrecord hheld => ?_, ?_⟩
    · have hnot := (m.find?_matchHash_eq_none_iff _ _).mp hfind id record hid hrecord
      rw [(holds_iff record hround hlength).mpr hheld] at hnot
      cases hnot
    · rw [hout]
      exact s.settles_ingestExclusive hmodels (s.candidate data w) hfind hcompressed deadline

end ContentStore

end

end ContentVault
