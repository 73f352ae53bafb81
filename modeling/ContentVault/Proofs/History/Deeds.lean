import ContentVault.Proofs.History.Slots
import ContentVault.Proofs.Vault.Lockstep
set_option autoImplicit false

/-!
# Deeds and what they did

A deed is an operation, with a clock that may move while a commit is under way.  Its answer
tells what happened: which identifier was claimed, committed, released, changed or removed.
In memory, the slots turn as the answers tell.
-/

namespace ContentVault

/-- An operation that is carried out. -/
inductive Deed : Type → Type 1 where
  /-- The clock stands still. -/
  | standing {α : Type} (op : Operation α) : Deed α
  /-- The chunks are written in lanes that take turns as `schedule` says; the content fits into the
  memory of a machine. -/
  | commitStore (r : Reservation StoreId) (record : ContentRecord)
      (hlength : record.content.length < UInt64.size) (clock : Clock) (schedule : List Nat) :
      Deed Unit
  | commitFile (r : Reservation FileId) (record : FileRecord) (clock : Clock) : Deed Unit

/-- Carries an action out under a clock, and leaves the clock behind. -/
def Atomic.under {σ α : Type} (clock : Clock) (action : Atomic (Clocked σ) α) : Atomic σ α :=
  fun s =>
    let (a, s) := action ⟨s, clock⟩
    (a, s.state)

/-! ## What happened -/

namespace Operation

/-- What an operation did to a blob. -/
def onBlob? : {α : Type} → Operation α → Except StoreError α →
    Option (StoreId × Event Status ContentRecord)
  | _, .claimStore id lease _, .ok claimed => if claimed then some (id, .claimed lease) else none
  | _, .commitStore r record _ _ _, answer =>
    if answer.isOk then some (r.id, .committed record) else none
  | _, .releaseStore r, .ok released => if released then some (r.id, .released) else none
  | _, .reserveStore _ _ _ _, .ok r => some (r.id, .claimed r.lease)
  | _, .updateStatus id status, answer => if answer.isOk then some (id, .changed status) else none
  | _, _, _ => none

/-- What an operation did to a file. -/
def onFile? : {α : Type} → Operation α → Except StoreError α →
    Option (FileId × Event FileRecord FileRecord)
  | _, .claimFile id lease _, .ok claimed => if claimed then some (id, .claimed lease) else none
  | _, .commitFile r record _, answer =>
    if answer.isOk then some (r.id, .committed record) else none
  | _, .releaseFile r, .ok released => if released then some (r.id, .released) else none
  | _, .reserveFile _ _ _ _, .ok r => some (r.id, .claimed r.lease)
  | _, .updateFile record, answer =>
    if answer.isOk then some (record.id, .changed record) else none
  | _, .removeFile id, answer => if answer.isOk then some (id, .removed) else none
  | _, _, _ => none

end Operation

namespace Deed

variable {α : Type}

/-- What a deed did to a blob. -/
def onBlob? : {α : Type} → Deed α → Except StoreError α →
    Option (StoreId × Event Status ContentRecord)
  | _, .standing op, answer => op.onBlob? answer
  | _, .commitStore r record _ _ _, answer =>
    if answer.isOk then some (r.id, .committed record) else none
  | _, .commitFile _ _ _, _ => none

/-- What a deed did to a file. -/
def onFile? : {α : Type} → Deed α → Except StoreError α →
    Option (FileId × Event FileRecord FileRecord)
  | _, .standing op, answer => op.onFile? answer
  | _, .commitStore _ _ _ _ _, _ => none
  | _, .commitFile r record _, answer =>
    if answer.isOk then some (r.id, .committed record) else none

/-- What fails does nothing to blobs. -/
theorem onBlob?_error (deed : Deed α) (e : StoreError) : deed.onBlob? (.error e) = none := by
  cases deed with
  | standing op => cases op <;> rfl
  | commitStore _ _ _ _ _ => rfl
  | commitFile _ _ _ => rfl

/-- What fails does nothing to files. -/
theorem onFile?_error (deed : Deed α) (e : StoreError) : deed.onFile? (.error e) = none := by
  cases deed with
  | standing op => cases op <;> rfl
  | commitStore _ _ _ _ _ => rfl
  | commitFile _ _ _ => rfl

/-- The operation that a deed is while its clock stands. -/
def operation (now : UInt64) : {α : Type} → Deed α → Operation α
  | _, .standing op => op
  | _, .commitStore r record hlength _ schedule => .commitStore r record hlength now schedule
  | _, .commitFile r record _ => .commitFile r record now

theorem onBlob?_operation (deed : Deed α) (now : UInt64) :
    (deed.operation now).onBlob? = deed.onBlob? := by
  cases deed <;> rfl

theorem onFile?_operation (deed : Deed α) (now : UInt64) :
    (deed.operation now).onFile? = deed.onFile? := by
  cases deed <;> rfl

end Deed

/-! ## Operations in memory -/

/-- What happened to a blob and to a file turned the slots. -/
structure MemoryStore.Turned (m n : MemoryStore)
    (blob? : Option (StoreId × Event Status ContentRecord))
    (file? : Option (FileId × Event FileRecord FileRecord)) : Prop where
  stores : m.stores.Turned n.stores blob?
  files : m.files.Turned n.files file?

/-- When nothing happened, nothing changed. -/
theorem MemoryStore.Turned.eq {m n : MemoryStore} (h : m.Turned n none none) : n = m := by
  obtain ⟨hstores, hfiles⟩ := h
  cases m
  cases n
  cases hstores
  cases hfiles
  rfl

namespace Operation

variable {α : Type}

/-- What was done, an answer that something is absent tells as well. -/
theorem turned_of_absent {κ χ ρ : Type} [Ord κ] [Amends χ ρ] [Identifier κ] {m n : SlotMap κ ρ}
    {done : Bool} {happened : κ × Event χ ρ} (id : κ)
    (h : m.Turned n (if done then some happened else none)) :
    m.Turned n (if (if done then Except.ok () else .error (Identifier.absent id)).isOk
      then some happened else none) := by
  cases done <;> exact h

/-- In memory, the slots turn as an operation's answer tells. -/
theorem turned_perform (op : Operation α) (m : MemoryStore) :
    m.Turned (op.perform m).2 (op.onBlob? (op.perform m).1) (op.onFile? (op.perform m).1) := by
  cases op with
  | claimStore id lease now => exact ⟨m.stores.turned_claim id lease now, rfl⟩
  | commitStore r record hlength now schedule =>
    change m.Turned (ChunkedStore.commitAt now r record m).2
      (if (ChunkedStore.commitAt now r record m).1.isOk then _ else _) none
    rw [ChunkedStore.commitAt_eq]
    by_cases hid : record.id = r.id
    · rw [if_pos hid]
      exact ⟨m.stores.turned_commit r record now, rfl⟩
    · rw [if_neg hid]
      exact ⟨rfl, rfl⟩
  | releaseStore r => exact ⟨m.stores.turned_release r, rfl⟩
  | reserveStore reserver candidate deadline around =>
    rcases reserver.outcome_reserve_memory candidate deadline (around.withBackend m)
      with ⟨e, _, hout⟩ | ⟨reservation, now, hclaim, hout⟩
    · rw [show (reserveStore reserver candidate deadline around).perform m = (.error e, m)
        from hout]
      exact ⟨rfl, rfl⟩
    · have hturned := m.stores.turned_claim (χ := Status) reservation.id reservation.lease now
      rw [show (m.stores.claim reservation.id reservation.lease now).1 = true
        from Except.ok.inj hclaim] at hturned
      rw [show (reserveStore reserver candidate deadline around).perform m
          = (.ok reservation,
            { m with stores := (m.stores.claim reservation.id reservation.lease now).2 })
        from hout]
      exact ⟨hturned, rfl⟩
  | getStore id => exact ⟨rfl, rfl⟩
  | matchHash hash => exact ⟨rfl, rfl⟩
  | updateStatus id status => exact ⟨turned_of_absent id (m.stores.turned_replace id status), rfl⟩
  | claimFile id lease now => exact ⟨rfl, m.files.turned_claim id lease now⟩
  | commitFile r record now =>
    change m.Turned (ChunkedStore.commitFileAt now r record m).2 none
      (if (ChunkedStore.commitFileAt now r record m).1.isOk then _ else _)
    rw [ChunkedStore.commitFileAt_eq]
    by_cases hid : record.id = r.id
    · rw [if_pos hid]
      exact ⟨rfl, m.files.turned_commit r record now⟩
    · rw [if_neg hid]
      exact ⟨rfl, rfl⟩
  | releaseFile r => exact ⟨rfl, m.files.turned_release r⟩
  | reserveFile reserver candidate deadline around =>
    rcases reserver.outcome_reserve_memory candidate deadline (around.withBackend m)
      with ⟨e, _, hout⟩ | ⟨reservation, now, hclaim, hout⟩
    · rw [show (reserveFile reserver candidate deadline around).perform m = (.error e, m)
        from hout]
      exact ⟨rfl, rfl⟩
    · have hturned := m.files.turned_claim (χ := FileRecord) reservation.id reservation.lease now
      rw [show (m.files.claim reservation.id reservation.lease now).1 = true
        from Except.ok.inj hclaim] at hturned
      rw [show (reserveFile reserver candidate deadline around).perform m
          = (.ok reservation,
            { m with files := (m.files.claim reservation.id reservation.lease now).2 })
        from hout]
      exact ⟨rfl, hturned⟩
  | getFile id => exact ⟨rfl, rfl⟩
  | updateFile record =>
    exact ⟨rfl, turned_of_absent record.id (m.files.turned_replace record.id record)⟩
  | removeFile id => exact ⟨rfl, turned_of_absent id (m.files.turned_remove id)⟩
  | filesForStore store => exact ⟨rfl, rfl⟩

end Operation

end ContentVault
