import ContentVault.Proofs.Vault.Intake
import ContentVault.Vault.Basic
set_option autoImplicit false

/-!
# Naming blobs

A file is named in two steps, of which only the second changes what is committed: one file
more, under an identifier over its blob that no other file has.
-/

namespace ContentVault

open Reserver (outcome)

variable {σ : Type} [Backend σ] [FileBackend σ] {w : World σ} {c : Contents}

namespace FileIndex

/-- A reservation leaves everything that is committed, and reserves an identifier over the blob of
the candidate, with a stamp. -/
theorem outcome_reserve (i : FileIndex) (h : Keeps w.backend c) {candidate : FileId}
    (hstamp : candidate.stamp ≠ []) (deadline : Deadline) :
    let out := outcome w (i.reserve candidate deadline)
    Keeps out.2 c ∧
      ∀ r, out.1 = .ok r → r.id.store = candidate.store ∧ r.id.stamp ≠ [] := by
  intro out
  let reserved := outcome w (i.reserver.reserve candidate deadline)
  have hout : out = (ContentStore.ofStore reserved.1, reserved.2) := by
    change outcome w (i.reserver.reserve candidate deadline >>= _) = _
    rw [Reserver.outcome_bind]
    rfl
  have hnext : ∀ (id : FileId) (w : World σ), id.store = candidate.store ∧ id.stamp ≠ [] →
      (w.run (Reservable.next id)).1.store = candidate.store ∧
        (w.run (Reservable.next id)).1.stamp ≠ [] := by
    intro id w hid
    refine ⟨hid.1, ?_⟩
    change id.stamp ++ _ ≠ []
    simp
  rw [hout]
  rcases i.reserver.attempts_outcomes candidate deadline hnext
      i.reserver.policy.maxAttempts.toNat 0 candidate ⟨rfl, hstamp⟩ w
    with ⟨e, _, hreserved⟩ | ⟨id, lease, now, e, _, hreserved⟩ | ⟨r, now, hid, _, hreserved⟩
  · rw [show reserved = _ from hreserved]
    refine ⟨h, fun r hr => ?_⟩
    cases hr
  · rw [show reserved = _ from hreserved]
    refine ⟨h.claimFile id lease now, fun r hr => ?_⟩
    cases hr
  · rw [show reserved = _ from hreserved]
    refine ⟨h.claimFile r.id r.lease now, fun r' hr => ?_⟩
    cases hr
    exact hid

/-- What may come of a file that is committed: nothing, or one file more. -/
inductive Inserts (id : FileId) (name owner : String) (c : Contents) :
    Except VaultError FileRecord → Contents → Prop where
  | failed (e : VaultError) : Inserts id name owner c (.error e) c
  | inserted {uploadedAt : Timestamp} (hnone : c.file? id = none) :
    Inserts id name owner c (.ok ⟨id, name, owner, uploadedAt⟩)
      (c.putFile ⟨id, name, owner, uploadedAt⟩)

theorem inserts_insert (i : FileIndex) (h : Keeps w.backend c) (r : Reservation FileId)
    (name owner : String) :
    let out := outcome w (i.insert r name owner)
    ∃ c', Inserts r.id name owner c out.1 c' ∧ Keeps out.2 c' := by
  intro out
  let file : FileRecord := ⟨r.id, name, owner, w.today⟩
  obtain ⟨clock', done, hcommit, hchanges⟩ := h.commitFile r file (w.clock i.reserver.clock)
  obtain ⟨hanswer, hbackend⟩ := World.onClocked_eq hcommit
  have hout : out = outcome w (i.reserver.commit r file >>= _) := rfl
  rw [hout, Reserver.outcome_bind]
  change (w.run (i.reserver.commit r file)).1 = done.1 at hanswer
  change (w.run (i.reserver.commit r file)).2.backend = done.2 at hbackend
  rw [hanswer]
  rcases hchanges.ends with ⟨e, hfailed, hkeeps⟩ | ⟨hdone, hnone, hkeeps⟩
  · rw [← hbackend] at hkeeps
    rw [hfailed]
    exact ⟨c, .failed _, hkeeps⟩
  · rw [← hbackend] at hkeeps
    rw [hdone]
    exact ⟨c.putFile file, .inserted hnone, hkeeps⟩

end FileIndex

/-- What may come of a blob that is given a name: nothing, or one file more. -/
inductive Naming (blob : Ingested) (name owner : String) (c : Contents) :
    Except VaultError Uploaded → Contents → Prop where
  | failed (e : VaultError) : Naming blob name owner c (.error e) c
  | named {file : FileRecord} (hstore : file.id.store = blob.record.id)
    (hstamp : file.id.stamp ≠ []) (hname : file.name = name) (howner : file.owner = owner)
    (hnone : c.file? file.id = none) :
    Naming blob name owner c
      (.ok ⟨file, blob.record.id, blob.record.fileSize, blob.deduped⟩) (c.putFile file)

/-- A blob is given a name, and the backend keeps what comes of it. -/
theorem Vault.naming_nameBlob (v : Vault) (h : Keeps w.backend c) (name owner : String)
    (blob : Ingested) (deadline : Deadline) :
    let out := outcome w (v.nameBlob name owner blob deadline)
    ∃ c', Naming blob name owner c out.1 c' ∧ Keeps out.2 c' := by
  intro out
  let candidate : FileId := .first blob.record.id (w.run (ask .stampByte)).1
  have hcandidate : candidate.stamp ≠ [] := by simp [candidate, FileId.first]
  have hstart : Keeps (w.run (ask .stampByte)).2.backend c := h
  obtain ⟨hkeeps, hreserved⟩ := v.files.outcome_reserve hstart hcandidate deadline
  have hout : out = outcome (w.run (ask .stampByte)).2 (v.files.reserve candidate deadline >>= _) :=
    rfl
  rw [hout, Reserver.outcome_bind]
  unfold outcome at hkeeps hreserved
  generalize (w.run (ask .stampByte)).2.run (v.files.reserve candidate deadline) = reserved
    at hkeeps hreserved ⊢
  obtain ⟨answer, w₁⟩ := reserved
  cases answer with
  | error e => exact ⟨c, .failed e, hkeeps⟩
  | ok r =>
    obtain ⟨hstore, hstamp⟩ := hreserved r rfl
    obtain ⟨c', hinserts, hkeeps'⟩ := v.files.inserts_insert hkeeps r name owner
    change ∃ c', Naming blob name owner c
      (outcome w₁ (v.files.insert r name owner >>= _)).1 c' ∧ Keeps _ c'
    rw [Reserver.outcome_bind]
    unfold outcome at hinserts hkeeps'
    generalize w₁.run (v.files.insert r name owner) = inserted at hinserts hkeeps' ⊢
    obtain ⟨answer, w₂⟩ := inserted
    cases hinserts with
    | failed e => exact ⟨c, .failed e, hkeeps'.releaseFile r⟩
    | inserted hnone => exact ⟨_, .named hstore hstamp rfl rfl hnone, hkeeps'⟩

end ContentVault
