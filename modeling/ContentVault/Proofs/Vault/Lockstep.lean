import ContentVault.Proofs.Vault.Reserving
set_option autoImplicit false

/-!
# Two backends in lockstep

A chunked store and slot maps in memory, both empty at first, are given the same operations.
They give the same answers and stand for the same slots, except that a chunked store may
refuse what is too large for it; memory sits out what was refused.
-/

namespace ContentVault

/-- One operation and all that it is given, by the type of its answer. -/
inductive Operation : Type → Type where
  | claimStore (id : StoreId) (lease : Lease) (now : UInt64) : Operation Bool
  /-- The chunks are written in lanes that take turns as `schedule` says; the content fits into the
  memory of a machine. -/
  | commitStore (r : Reservation StoreId) (record : ContentRecord)
      (hlength : record.content.length < UInt64.size) (now : UInt64) (schedule : List Nat) :
      Operation Unit
  | releaseStore (r : Reservation StoreId) : Operation Bool
  /-- Clocks, tokens and stamps are those of the surroundings. -/
  | reserveStore (reserver : Reserver) (candidate : StoreId) (deadline : Deadline)
      (around : World Unit) : Operation (Reservation StoreId)
  | getStore (id : StoreId) : Operation (Option ContentRecord)
  | matchHash (hash : UInt32) : Operation (List ContentRecord)
  | updateStatus (id : StoreId) (status : Status) : Operation Unit
  | claimFile (id : FileId) (lease : Lease) (now : UInt64) : Operation Bool
  | commitFile (r : Reservation FileId) (record : FileRecord) (now : UInt64) : Operation Unit
  | releaseFile (r : Reservation FileId) : Operation Bool
  /-- Clocks, tokens and stamps are those of the surroundings. -/
  | reserveFile (reserver : Reserver) (candidate : FileId) (deadline : Deadline)
      (around : World Unit) : Operation (Reservation FileId)
  | getFile (id : FileId) : Operation (Option FileRecord)
  | updateFile (record : FileRecord) : Operation Unit
  | removeFile (id : FileId) : Operation Unit
  | filesForStore (store : StoreId) : Operation (List FileRecord)

/-- A read that gives the expected answer. -/
theorem Follows.of_read {σ α : Type} {models : σ → MemoryStore → Prop} {before : σ}
    {m : MemoryStore} {out : Except StoreError α × σ} {answer : Except StoreError α}
    (h : models before m) (hout : out = (answer, before)) :
    Follows models before out (answer, m) := by
  subst hout
  exact Or.inr ⟨rfl, h⟩

namespace Operation

variable {α : Type}

/-- Carries an operation out. -/
def perform {σ : Type} [Backend σ] : {α : Type} → Operation α → Atomic σ (Except StoreError α)
  | _, .claimStore id lease now => Backend.claimStore id lease now
  | _, .commitStore r record _ now _ => (Backend.commitStore r record).standing now
  | _, .releaseStore r => Backend.releaseStore r
  | _, .reserveStore reserver candidate deadline around => fun b =>
    Reserver.outcome (around.withBackend b) (reserver.reserve candidate deadline)
  | _, .getStore id => Backend.getStore id
  | _, .matchHash hash => Backend.matchHash hash
  | _, .updateStatus id status => Backend.updateStatus id status
  | _, .claimFile id lease now => Backend.claimFile id lease now
  | _, .commitFile r record now => (Backend.commitFile r record).standing now
  | _, .releaseFile r => Backend.releaseFile r
  | _, .reserveFile reserver candidate deadline around => fun b =>
    Reserver.outcome (around.withBackend b) (reserver.reserve candidate deadline)
  | _, .getFile id => Backend.getFile id
  | _, .updateFile record => Backend.updateFile record
  | _, .removeFile id => Backend.removeFile id
  | _, .filesForStore store => Backend.filesForStore store

/-- Carries an operation out on a chunked store, with the turns of the lanes that it names. -/
def performInChunks : {α : Type} → Operation α → Atomic ChunkedStore (Except StoreError α)
  | _, .commitStore r record _ now schedule => fun s =>
    (ChunkedStore.commit s.config schedule r record).alone.standing now s
  | _, op => op.perform

/-! ## One operation on either backend -/

/-- A chunked store that stands for slot maps follows them through every operation. -/
theorem follows {s : ChunkedStore} {m : MemoryStore} (h : ChunkedStore.Models s m)
    (op : Operation α) : Follows ChunkedStore.Models s (op.performInChunks s) (op.perform m) := by
  have hslots : SlotBackend.Models s m := h
  obtain ⟨hconfig, writer, hrep⟩ := h
  have hmodels : ChunkedStore.Models s m := ⟨hconfig, writer, hrep⟩
  cases op with
  | claimStore id lease now => exact hrep.claim hconfig id lease now
  | commitStore r record hlength now schedule =>
    obtain ⟨clock', now', out, hshows, hcommit, hfollows⟩ :=
      hrep.commit hconfig schedule r record hlength (.still now)
    rw [hshows.eq_of_still] at hfollows
    change Follows _ s ((ChunkedStore.commit s.config schedule r record).alone.standing now s) _
    rw [Atomic.standing, hcommit]
    exact hfollows
  | releaseStore r => exact hrep.release hconfig r
  | reserveStore reserver candidate deadline around =>
    exact reserver.follows_reserve candidate deadline (around.withBackend s) hslots
  | getStore id => exact .of_read hmodels (hrep.getStore id)
  | matchHash hash => exact .of_read hmodels (hrep.matchHash hash)
  | updateStatus id status => exact hrep.updateStatus hconfig id status
  | claimFile id lease now => exact hrep.claimFile hconfig id lease now
  | commitFile r record now =>
    obtain ⟨clock', out, hcommit, hfollows⟩ := hrep.commitFile hconfig r record (.still now)
    change Follows _ s (Atomic.standing now (ChunkedStore.commitFile · r record) s) _
    rw [Atomic.standing, hcommit]
    exact hfollows
  | releaseFile r => exact hrep.releaseFile hconfig r
  | reserveFile reserver candidate deadline around =>
    exact reserver.follows_reserve candidate deadline (around.withBackend s) hslots
  | getFile id => exact .of_read hmodels (congrArg (Except.ok ·, s) (hrep.getFile id))
  | updateFile record => exact hrep.updateFile hconfig record
  | removeFile id => exact hrep.removeFile hconfig id
  | filesForStore store =>
    exact .of_read hmodels (congrArg (Except.ok ·, s) (hrep.filesForStore store))

/-! ## Nothing is too large for slot maps -/

section

variable {κ ρ : Type} {e : StoreError}

theorem isRefusal_of_absent [Identifier κ] {id : κ} {done : Bool}
    (h : (if done then Except.ok () else .error (Identifier.absent id)) = .error e) :
    e.isRefusal = false := by
  cases done with
  | true => cases h
  | false =>
    cases h
    rfl

theorem isRefusal_of_commit [Ord κ] [Std.TransOrd κ] [Identifier κ] {m : SlotMap κ ρ}
    {r : Reservation κ} {record : ρ} {now : UInt64} (h : (m.commit r record now).1 = .error e) :
    e.isRefusal = false := by
  unfold SlotMap.commit at h
  split at h
  · cases h
  · cases h
    rfl

theorem isRefusal_of_reserve [Reservable κ ρ] [SlotClaim κ ρ] {reserver : Reserver}
    {candidate : κ} {deadline : Deadline} {w : World MemoryStore}
    (h : (Reserver.outcome w (reserver.reserve candidate deadline)).1 = .error e) :
    e.isRefusal = false := by
  rcases reserver.outcome_reserve_memory candidate deadline w
    with ⟨e', he', hout⟩ | ⟨reservation, now, _, hout⟩
  · cases (congrArg Prod.fst hout).symm.trans h
    rcases he' with rfl | rfl
    · rfl
    · rfl
  · cases (congrArg Prod.fst hout).symm.trans h

/-- Slot maps refuse nothing. -/
theorem isRefusal_eq_false (op : Operation α) (m : MemoryStore)
    (h : (op.perform m).1 = .error e) : e.isRefusal = false := by
  cases op with
  | claimStore id lease now => cases h
  | commitStore r record _ now _ =>
    change (ChunkedStore.commitAt now r record m).1 = _ at h
    rw [ChunkedStore.commitAt_eq] at h
    by_cases hid : record.id = r.id
    · rw [if_pos hid] at h
      exact isRefusal_of_commit h
    · rw [if_neg hid] at h
      cases h
      rfl
  | releaseStore r => cases h
  | reserveStore reserver candidate deadline around => exact isRefusal_of_reserve h
  | getStore id => cases h
  | matchHash hash => cases h
  | updateStatus id status => exact isRefusal_of_absent h
  | claimFile id lease now => cases h
  | commitFile r record now =>
    change (ChunkedStore.commitFileAt now r record m).1 = _ at h
    rw [ChunkedStore.commitFileAt_eq] at h
    by_cases hid : record.id = r.id
    · rw [if_pos hid] at h
      exact isRefusal_of_commit h
    · rw [if_neg hid] at h
      cases h
      rfl
  | releaseFile r => cases h
  | reserveFile reserver candidate deadline around => exact isRefusal_of_reserve h
  | getFile id => cases h
  | updateFile record => exact isRefusal_of_absent h
  | removeFile id => exact isRefusal_of_absent h
  | filesForStore store => cases h

end

end Operation

/-! ## Any operations on both backends -/

/-- The answer says that something was too large for the store. -/
def refused {α : Type} : Except StoreError α → Bool
  | .error e => e.isRefusal
  | .ok _ => false

/-- A chunked store, and slot maps beside it. -/
structure Pair where
  chunked : ChunkedStore
  memory : MemoryStore

namespace Pair

/-- The chunked store stands for the same slots as memory: under every identifier nothing, the same
lease, or the same record. -/
structure SameSlots (p : Pair) : Prop where
  stores : ∀ id, p.chunked.storeSlot id = .ok (p.memory.stores.get? id)
  files : ∀ id, p.chunked.fileSlot id = p.memory.files.get? id

/-- Carries an operation out on both; memory sits out what the chunked store refuses. -/
def advance {α : Type} (p : Pair) (op : Operation α) : Pair :=
  let out := op.performInChunks p.chunked
  ⟨out.2, if refused out.1 then p.memory else (op.perform p.memory).2⟩

/-- Nothing is stored or reserved. -/
def empty (config : ChunkedConfig) : Pair := ⟨.empty config, .empty⟩

/-- Carries out operations one after the other. -/
def run (p : Pair) (ops : List ((α : Type) × Operation α)) : Pair :=
  ops.foldl (fun p op => p.advance op.2) p

variable {α : Type}

theorem sameSlots_of_models {p : Pair} (h : ChunkedStore.Models p.chunked p.memory) :
    p.SameSlots := by
  obtain ⟨_, writer, h⟩ := h
  exact ⟨h.storeSlot_eq, h.fileSlot_eq⟩

theorem models_empty {config : ChunkedConfig} (hconfig : ChunkedStore.Usable config) :
    ChunkedStore.Models (empty config).chunked (empty config).memory :=
  ⟨hconfig, _, ChunkedStore.represents_empty config⟩

/-- What one operation comes to on a pair in step. -/
theorem models_perform {p : Pair} (h : ChunkedStore.Models p.chunked p.memory)
    (op : Operation α) :
    let out := op.performInChunks p.chunked
    if refused out.1 then out.2 = p.chunked
    else out.1 = (op.perform p.memory).1 ∧
      ChunkedStore.Models out.2 (op.perform p.memory).2 := by
  intro out
  rcases op.follows h with ⟨e, he, hout⟩ | ⟨hanswer, hmodels⟩
  · rw [show out = (.error e, p.chunked) from hout, refused, if_pos he]
  · have hrefused : refused out.1 = false := by
      rw [show out.1 = (op.perform p.memory).1 from hanswer]
      cases hexpected : (op.perform p.memory).1 with
      | error e => exact op.isRefusal_eq_false p.memory hexpected
      | ok a => rfl
    rw [hrefused, if_neg Bool.false_ne_true]
    exact ⟨hanswer, hmodels⟩

theorem models_advance {p : Pair} (h : ChunkedStore.Models p.chunked p.memory)
    (op : Operation α) : ChunkedStore.Models (p.advance op).chunked (p.advance op).memory := by
  have hperform := models_perform h op
  change ChunkedStore.Models (op.performInChunks p.chunked).2
    (if refused (op.performInChunks p.chunked).1 then p.memory else (op.perform p.memory).2)
  split
  next hrefused =>
    rw [if_pos hrefused] at hperform
    rw [hperform]
    exact h
  next hrefused =>
    rw [if_neg hrefused] at hperform
    exact hperform.2

theorem models_run {p : Pair} (h : ChunkedStore.Models p.chunked p.memory)
    (ops : List ((α : Type) × Operation α)) :
    ChunkedStore.Models (p.run ops).chunked (p.run ops).memory := by
  induction ops generalizing p with
  | nil => exact h
  | cons op ops ih => exact ih (models_advance h op.2)

end Pair

/-- After any operations on both, the next one is refused and the chunked store stays what it is, or
both give the same answer and stand for the same slots again. -/
theorem backends_agree {config : ChunkedConfig} (hconfig : ChunkedStore.Usable config)
    (ops : List ((α : Type) × Operation α)) {α : Type} (op : Operation α) :
    let p := (Pair.empty config).run ops
    let out := op.performInChunks p.chunked
    let expected := op.perform p.memory
    p.SameSlots ∧
    if refused out.1 then out.2 = p.chunked
    else out.1 = expected.1 ∧ Pair.SameSlots ⟨out.2, expected.2⟩ := by
  intro p out expected
  have hmodels := Pair.models_run (Pair.models_empty hconfig) ops
  have hperform := Pair.models_perform hmodels op
  refine ⟨Pair.sameSlots_of_models hmodels, ?_⟩
  split
  next hrefused =>
    rw [if_pos hrefused] at hperform
    exact hperform
  next hrefused =>
    rw [if_neg hrefused] at hperform
    exact ⟨hperform.1, Pair.sameSlots_of_models hperform.2⟩

/-- A blob of three chunks is claimed and committed, and both stores hold it. -/
theorem backends_agree_on_blob :
    let config : ChunkedConfig := ⟨2, 128, 1⟩
    let blob : ContentRecord := .fresh ⟨7, 0⟩ [1, 2, 3, 4, 5] "text/plain" 5
    let p := (Pair.empty config).run
      [⟨_, .claimStore blob.id ⟨1, 100⟩ 5⟩,
       ⟨_, .commitStore ⟨blob.id, ⟨1, 100⟩⟩ blob (by decide) 6 []⟩]
    ChunkedStore.Usable config ∧ p.chunked.chunkCount = 3 ∧
      p.memory.stores.get? blob.id = some (.committed blob) ∧
      p.chunked.storeSlot blob.id = .ok (some (.committed blob)) := by
  intro config blob p
  have hconfig : ChunkedStore.Usable config := ⟨by decide, by decide⟩
  have hmemory : p.memory.stores.get? blob.id = some (.committed blob) := by decide +kernel
  have hslots : p.SameSlots := (backends_agree hconfig _ (.getStore blob.id)).1
  exact ⟨hconfig, by decide +kernel, hmemory, (hslots.stores blob.id).trans (by rw [hmemory])⟩

end ContentVault
