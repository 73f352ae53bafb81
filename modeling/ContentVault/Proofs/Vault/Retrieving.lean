import ContentVault.Proofs.Vault.Ingesting
set_option autoImplicit false

/-!
# Reading blobs and changing their statuses, over any backend

Reads leave everything as it was; a change of a status leaves all but that status.
-/

namespace ContentVault.ContentStore

open MemoryStore (SameBlobs)
open Reserver (outcome)

variable {σ : Type} [Backend σ]

theorem run_unlessPassed {α : Type} (w : World σ) (deadline : Deadline)
    (p : Procedure (Except VaultError α)) :
    w.run (unlessPassed deadline p)
      = if deadline.isExpired w.timer then (.error (.store .timeout), w) else w.run p := by
  unfold unlessPassed
  rw [World.run_bind, World.run_passed]
  by_cases htime : deadline.isExpired w.timer = true
  · simp only [htime, if_true]
    rfl
  · simp only [htime]
    rfl

variable [SlotBackend σ] {w : World σ} {m : MemoryStore}

theorem run_record (h : SlotBackend.Models w.backend m) (id : StoreId) :
    w.run (record id) = (ofStore (Identifier.require id (.ok (m.stores.record? id))), w) := by
  have hget : w.run (ask (.getStore id)) = (.ok (m.stores.record? id), w) := by
    change w.onBackend (Backend.getStore id) = _
    rw [World.onBackend, SlotBackend.getStore h]
  unfold record
  rw [World.run_bind, hget]
  rfl

/-- What is committed is retrieved, in time. -/
theorem run_get [Codec] (h : SlotBackend.Models w.backend m) (id : StoreId) (deadline : Deadline) :
    w.run (get id deadline)
      = (if deadline.isExpired w.timer then .error (.store .timeout)
        else match m.stores.record? id with
          | none => .error (.store (Identifier.absent id))
          | some record => retrieve record, w) := by
  unfold get
  rw [run_unlessPassed, World.run_bind, run_record h]
  by_cases htime : deadline.isExpired w.timer = true
  · simp only [htime, if_true]
  · simp only [htime]
    cases m.stores.record? id with
    | none => rfl
    | some record =>
      change w.run (unlessPassed deadline (.done (retrieve record))) = _
      rw [run_unlessPassed]
      simp only [htime]
      rfl

theorem run_matchHash (h : SlotBackend.Models w.backend m) (hash : UInt32) (deadline : Deadline) :
    w.run (matchHash hash deadline)
      = (if deadline.isExpired w.timer then .error (.store .timeout) else .ok (m.matchHash hash),
        w) := by
  unfold matchHash
  rw [run_unlessPassed, World.run_bind, run_ask_matchHash h]
  by_cases htime : deadline.isExpired w.timer = true
  · simp only [htime, if_true]
  · simp only [htime]
    rfl

theorem outcome_updateStatus (h : SlotBackend.Models w.backend m) (id : StoreId) (status : Status)
    (deadline : Deadline) :
    ∃ m', SameBlobs m m' ∧
      SlotBackend.Models (outcome w (updateStatus id status deadline)).2 m' := by
  unfold updateStatus outcome
  rw [run_unlessPassed]
  by_cases htime : deadline.isExpired w.timer = true
  · simp only [htime, if_true]
    exact ⟨m, (MemoryStore.SameRecords.refl m).sameBlobs, h⟩
  · simp only [htime]
    change ∃ m', SameBlobs m m' ∧
      SlotBackend.Models (Backend.updateStatus id status w.backend).2 m'
    obtain ⟨m', hmodels, hsame⟩ := (SlotBackend.updateStatus h id status).exists_models h
      (MemoryStore.SameRecords.refl m).sameBlobs (m.sameBlobs_updateStatus id status)
    exact ⟨m', hsame, hmodels⟩

end ContentVault.ContentStore
