import ContentVault.Proofs.History.Deeds
import ContentVault.Proofs.Store.Settings
set_option autoImplicit false

/-!
# Chronicles

A chronicle puts down every deed that is carried out on a backend, with its answer.  Over
either backend, the slots at the end are those to which the events of the chronicle lead.
-/

namespace ContentVault

/-- A backend on which deeds are carried out. -/
class ChronicledBackend (σ : Type) [Backend σ] extends SlotBackend σ where
  carryOut {α : Type} (deed : Deed α) : Atomic σ (Except StoreError α)
  /-- A deed comes to the operation that it is at some reading of its clock. -/
  follows {α : Type} {b : σ} {m : MemoryStore} (h : Models b m) (deed : Deed α) :
    ∃ now, Follows Models b (carryOut deed b) ((deed.operation now).perform m)
  /-- A deed that did nothing changed nothing. -/
  unchanged {α : Type} {b : σ} {m : MemoryStore} (h : Models b m) (deed : Deed α)
    (hblob : deed.onBlob? (carryOut deed b).1 = none)
    (hfile : deed.onFile? (carryOut deed b).1 = none) : (carryOut deed b).2 = b
  getFile {b : σ} {m : MemoryStore} (h : Models b m) (id : FileId) :
    Backend.getFile id b = (.ok (m.files.record? id), b)

export ChronicledBackend (carryOut)

/-! ## In memory -/

namespace MemoryStore

/-- Carries a deed out. -/
def perform {α : Type} : Deed α → Atomic MemoryStore (Except StoreError α)
  | .standing op => op.perform
  | .commitStore r record _ clock _ => Atomic.under clock (commitStore · r record)
  | .commitFile r record clock => Atomic.under clock (commitFile · r record)

/-- In memory, a commit looks at the clock once. -/
theorem perform_eq {α : Type} (deed : Deed α) :
    ∃ now, ∀ m : MemoryStore, perform deed m = (deed.operation now).perform m := by
  cases deed with
  | standing op => exact ⟨0, fun _ => rfl⟩
  | commitStore r record hlength clock schedule =>
    refine ⟨clock.read.1, fun m => ?_⟩
    obtain ⟨clock', hcommit⟩ := commitStore_eq m r record clock
    change Atomic.under clock (commitStore · r record) m = ChunkedStore.commitAt _ r record m
    rw [Atomic.under, hcommit]
  | commitFile r record clock =>
    refine ⟨clock.read.1, fun m => ?_⟩
    obtain ⟨clock', hcommit⟩ := commitFile_eq m r record clock
    change Atomic.under clock (commitFile · r record) m = ChunkedStore.commitFileAt _ r record m
    rw [Atomic.under, hcommit]

instance : ChronicledBackend MemoryStore where
  carryOut := perform
  follows := by
    rintro α b _ rfl deed
    obtain ⟨now, hperform⟩ := perform_eq deed
    rw [hperform]
    exact ⟨now, Or.inr ⟨rfl, rfl⟩⟩
  unchanged := by
    rintro α b _ rfl deed hblob hfile
    obtain ⟨now, hperform⟩ := perform_eq deed
    have hturned := (deed.operation now).turned_perform b
    rw [← hperform, deed.onBlob?_operation, deed.onFile?_operation, hblob, hfile] at hturned
    exact hturned.eq
  getFile := @getFile_of_models

end MemoryStore

/-! ## In chunks -/

namespace ChunkedStore

/-- Carries a deed out. -/
def perform {α : Type} : Deed α → Atomic ChunkedStore (Except StoreError α)
  | .standing op => op.performInChunks
  | .commitStore r record _ clock schedule => fun s =>
    (commit s.config schedule r record).alone.under clock s
  | .commitFile r record clock => Atomic.under clock (commitFile · r record)

/-! ### What fails changes nothing -/

section

variable {s : ChunkedStore} {m : MemoryStore}

theorem commit_unchanged (h : Models s m) {schedule : List Nat} {r : Reservation StoreId}
    {record : ContentRecord} (hlength : record.content.length < UInt64.size) {clock : Clock}
    (hfailed : ((commit s.config schedule r record).alone.under clock s).1.isOk = false) :
    ((commit s.config schedule r record).alone.under clock s).2 = s := by
  obtain ⟨hconfig, writer, hrep⟩ := h
  obtain ⟨clock', now, out, _, hcommit, hends⟩ :=
    hrep.commit_ends hconfig schedule r record hlength clock
  rw [Atomic.under, hcommit] at hfailed ⊢
  exact hends.eq_before hfailed

theorem commitFile_unchanged (h : Models s m) {r : Reservation FileId} {record : FileRecord}
    {clock : Clock}
    (hfailed : (Atomic.under clock (commitFile · r record) s).1.isOk = false) :
    (Atomic.under clock (commitFile · r record) s).2 = s := by
  obtain ⟨hconfig, writer, hrep⟩ := h
  obtain ⟨clock', out, hcommit, hends⟩ := hrep.commitFile_ends hconfig r record clock
  rw [Atomic.under, hcommit] at hfailed ⊢
  exact hends.eq_before hfailed

theorem release_unchanged {r : Reservation StoreId}
    (hfailed : ((release r).unclocked s).1 ≠ .ok true) : ((release r).unclocked s).2 = s := by
  unfold release Client.unclocked at hfailed ⊢
  simp only [Client.alone_bind, alone_deleteStore] at hfailed ⊢
  rcases s.stores.deleteIf_cases r.id (·.isLeasedTo r.lease.token)
    with ⟨_, hdel⟩ | ⟨_, _, _, hdel⟩
  · simp only [hdel, Bool.false_eq_true, if_false]
    rfl
  · simp only [hdel, if_true, Client.alone_bind, Client.alone_pure, ne_eq, not_true_eq_false]
      at hfailed

theorem releaseFile_unchanged {r : Reservation FileId}
    (hfailed : (s.releaseFile r).1 ≠ .ok true) : (s.releaseFile r).2 = s := by
  unfold releaseFile onFiles at hfailed ⊢
  rcases s.files.deleteIf_cases r.id (·.isLeasedTo r.lease.token)
    with ⟨_, hdel⟩ | ⟨_, _, _, hdel⟩
  · simp only [hdel]
  · simp only [hdel, ne_eq, not_true_eq_false] at hfailed

theorem updateStatus_unchanged {id : StoreId} {status : Status}
    (hfailed : ((updateStatus id status).unclocked s).1.isOk = false) :
    ((updateStatus id status).unclocked s).2 = s := by
  unfold updateStatus Client.unclocked at hfailed ⊢
  rw [Client.alone_bind] at hfailed ⊢
  rcases alone_updateStore_cases ⟨s, .still 0⟩ id (fun _ doc => doc.record?.isSome)
      (fun doc => { doc with record? := doc.record?.map fun m => { m with status } })
    with ⟨_, hup⟩ | ⟨_, _, ⟨_, hup⟩ | ⟨_, _, hup⟩ | ⟨_, _, hup⟩⟩
  · rw [hup]
    rfl
  · rw [hup]
    rfl
  · rw [hup]
    rfl
  · rw [hup] at hfailed
    cases hfailed

theorem updateFile_unchanged {record : FileRecord}
    (hfailed : (s.updateFile record).1.isOk = false) : (s.updateFile record).2 = s := by
  unfold updateFile onFiles at hfailed ⊢
  rcases s.files.updateIf_cases record.id (·.record?.isSome)
      (fun doc => { doc with record? := some record })
    with ⟨_, hup⟩ | ⟨_, _, _, _, hup⟩ | ⟨_, _, _, _, hup⟩
  · simp only [hup]
  · simp only [hup]
  · simp only [hup] at hfailed
    cases hfailed

theorem removeFile_unchanged {id : FileId} (hfailed : (s.removeFile id).1.isOk = false) :
    (s.removeFile id).2 = s := by
  unfold removeFile onFiles at hfailed ⊢
  rcases s.files.deleteIf_cases id (·.record?.isSome) with ⟨_, hdel⟩ | ⟨_, _, _, hdel⟩
  · simp only [hdel]
  · simp only [hdel] at hfailed
    cases hfailed

theorem eq_false_of_ite_eq_none {α : Type} {a : α} {done : Bool}
    (h : (if done then some a else none) = none) : done = false := by
  cases done with
  | false => rfl
  | true => cases h

/-- An operation that did nothing changed nothing. -/
theorem unchanged_of_operation (h : Models s m) {α : Type} (op : Operation α)
    (hblob : op.onBlob? (op.performInChunks s).1 = none)
    (hfile : op.onFile? (op.performInChunks s).1 = none) : (op.performInChunks s).2 = s := by
  have hmodels := h
  obtain ⟨_, writer, hrep⟩ := hmodels
  cases op with
  | claimStore id lease now =>
    refine unclaimed_claim fun hclaimed => ?_
    rw [show ((Operation.claimStore id lease now).performInChunks s).1 = .ok true from hclaimed]
      at hblob
    cases hblob
  | commitStore r record hlength now schedule =>
    exact commit_unchanged h hlength (eq_false_of_ite_eq_none hblob)
  | releaseStore r =>
    refine release_unchanged fun hreleased => ?_
    rw [show ((Operation.releaseStore r).performInChunks s).1 = .ok true from hreleased] at hblob
    cases hblob
  | reserveStore reserver candidate deadline around =>
    refine reserver.outcome_reserve_unchanged (w := around.withBackend s)
      (fun _ _ _ => unclaimed_claim) fun reservation hreserved => ?_
    rw [show ((Operation.reserveStore reserver candidate deadline around).performInChunks s).1
      = .ok reservation from hreserved] at hblob
    cases hblob
  | getStore id => exact congrArg Prod.snd (hrep.getStore id)
  | matchHash hash => exact congrArg Prod.snd (hrep.matchHash hash)
  | updateStatus id status => exact updateStatus_unchanged (eq_false_of_ite_eq_none hblob)
  | claimFile id lease now =>
    refine unclaimed_claimFile fun hclaimed => ?_
    rw [show ((Operation.claimFile id lease now).performInChunks s).1 = .ok true from hclaimed]
      at hfile
    cases hfile
  | commitFile r record now => exact commitFile_unchanged h (eq_false_of_ite_eq_none hfile)
  | releaseFile r =>
    refine releaseFile_unchanged fun hreleased => ?_
    rw [show ((Operation.releaseFile r).performInChunks s).1 = .ok true from hreleased] at hfile
    cases hfile
  | reserveFile reserver candidate deadline around =>
    refine reserver.outcome_reserve_unchanged (w := around.withBackend s)
      (fun _ _ _ => unclaimed_claimFile) fun reservation hreserved => ?_
    rw [show ((Operation.reserveFile reserver candidate deadline around).performInChunks s).1
      = .ok reservation from hreserved] at hfile
    cases hfile
  | getFile id => rfl
  | updateFile record => exact updateFile_unchanged (eq_false_of_ite_eq_none hfile)
  | removeFile id => exact removeFile_unchanged (eq_false_of_ite_eq_none hfile)
  | filesForStore store => rfl

end

instance : ChronicledBackend ChunkedStore where
  carryOut := perform
  follows h deed := by
    cases deed with
    | standing op => exact ⟨0, op.follows h⟩
    | @commitStore r record hlength clock schedule =>
      obtain ⟨hconfig, writer, hrep⟩ := h
      obtain ⟨clock', now, out, _, hcommit, hfollows⟩ :=
        hrep.commit hconfig schedule r record hlength clock
      refine ⟨now, ?_⟩
      unfold perform Atomic.under
      simp only [hcommit]
      exact hfollows
    | commitFile r record clock =>
      obtain ⟨hconfig, writer, hrep⟩ := h
      obtain ⟨clock', out, hcommit, hfollows⟩ := hrep.commitFile hconfig r record clock
      refine ⟨clock.read.1, ?_⟩
      unfold perform Atomic.under
      simp only [hcommit]
      exact hfollows
  unchanged h deed hblob hfile := by
    cases deed with
    | standing op => exact unchanged_of_operation h op hblob hfile
    | commitStore r record hlength clock schedule =>
      exact commit_unchanged h hlength (eq_false_of_ite_eq_none hblob)
    | commitFile r record clock =>
      exact commitFile_unchanged h (eq_false_of_ite_eq_none hfile)
  getFile := @getFile_of_models

/-- No deed touches the settings. -/
theorem bare_perform {α : Type} (deed : Deed α) (s : ChunkedStore) :
    (perform deed s).2.bare = s.bare := by
  cases deed with
  | standing op =>
    cases op with
    | claimStore id lease now => exact steady_claim id lease now _
    | commitStore r record hlength now schedule => exact steady_commit _ _ _ _ _
    | releaseStore r => exact steady_release r _
    | reserveStore reserver candidate deadline around =>
      rcases reserver.outcome_reserve_backend candidate deadline (around.withBackend s)
        with hout | ⟨id, lease, now, hout⟩
      · exact congrArg bare hout
      · exact (congrArg bare hout).trans (steady_claim id lease now ⟨s, .still 0⟩)
    | getStore id => exact congrArg (·.2.state.bare) (alone_getStore id ⟨s, .still 0⟩)
    | matchHash hash => exact congrArg (·.2.state.bare) (alone_matchHash hash ⟨s, .still 0⟩)
    | updateStatus id status => exact steady_updateStatus id status _
    | claimFile id lease now => exact s.bare_claimFile id lease now
    | commitFile r record now => exact bare_commitFile _ _ _
    | releaseFile r => exact s.bare_releaseFile r
    | reserveFile reserver candidate deadline around =>
      rcases reserver.outcome_reserve_backend candidate deadline (around.withBackend s)
        with hout | ⟨id, lease, now, hout⟩
      · exact congrArg bare hout
      · exact (congrArg bare hout).trans (s.bare_claimFile id lease now)
    | getFile id => rfl
    | updateFile record => exact s.bare_updateFile record
    | removeFile id => exact s.bare_removeFile id
    | filesForStore store => rfl
  | commitStore r record hlength clock schedule => exact steady_commit _ _ _ _ _
  | commitFile r record clock => exact bare_commitFile _ _ _

end ChunkedStore

/-! ## Whole runs -/

/-- A deed that was carried out, with its answer. -/
structure Report where
  {α : Type}
  deed : Deed α
  answer : Except StoreError α

/-- A backend, and the reports of all that was done to it, the latest first. -/
structure Chronicle (σ : Type) where
  backend : σ
  reports : List Report

namespace Chronicle

variable {σ : Type}

/-- Nothing was done yet. -/
def start (b : σ) : Chronicle σ := ⟨b, []⟩

/-- What happened to a blob, the latest first. -/
def blobEvents (c : Chronicle σ) (id : StoreId) : List (Event Status ContentRecord) :=
  c.reports.flatMap fun report => Event.about id (report.deed.onBlob? report.answer)

/-- What happened to a file, the latest first. -/
def fileEvents (c : Chronicle σ) (id : FileId) : List (Event FileRecord FileRecord) :=
  c.reports.flatMap fun report => Event.about id (report.deed.onFile? report.answer)

variable [Backend σ] [ChronicledBackend σ]

/-- Carries a deed out and reports it. -/
def advance {α : Type} (c : Chronicle σ) (deed : Deed α) : Chronicle σ :=
  let out := carryOut deed c.backend
  ⟨out.2, ⟨deed, out.1⟩ :: c.reports⟩

/-- Carries deeds out one after the other. -/
def run (c : Chronicle σ) (deeds : List ((α : Type) × Deed α)) : Chronicle σ :=
  deeds.foldl (fun c deed => c.advance deed.2) c

/-- The backend stands for the slots to which the reported events lead. -/
structure Tells (start : MemoryStore) (c : Chronicle σ) (m : MemoryStore) : Prop where
  models : SlotBackend.Models c.backend m
  blobs : ∀ id, Leads (start.stores.get? id) (c.blobEvents id) (m.stores.get? id)
  files : ∀ id, Leads (start.files.get? id) (c.fileEvents id) (m.files.get? id)

theorem tells_start {b : σ} {m : MemoryStore} (h : SlotBackend.Models b m) :
    Tells m (start b) m := ⟨h, fun _ => .nothing, fun _ => .nothing⟩

/-- What one deed does to the backend, its answer tells. -/
theorem turned_carryOut {b : σ} {m : MemoryStore} (h : SlotBackend.Models b m) {α : Type}
    (deed : Deed α) :
    ∃ n, SlotBackend.Models (carryOut deed b).2 n ∧
      m.Turned n (deed.onBlob? (carryOut deed b).1) (deed.onFile? (carryOut deed b).1) := by
  obtain ⟨now, ⟨e, _, hout⟩ | ⟨hanswer, hmodels⟩⟩ := ChronicledBackend.follows h deed
  · rw [hout, deed.onBlob?_error, deed.onFile?_error]
    exact ⟨m, h, rfl, rfl⟩
  · have hturned := (deed.operation now).turned_perform m
    rw [deed.onBlob?_operation, deed.onFile?_operation] at hturned
    rw [hanswer]
    exact ⟨_, hmodels, hturned⟩

theorem Tells.advance {start m : MemoryStore} {c : Chronicle σ} (h : Tells start c m) {α : Type}
    (deed : Deed α) : ∃ n, Tells start (c.advance deed) n := by
  obtain ⟨n, hmodels, hturned⟩ := turned_carryOut h.models deed
  exact ⟨n, hmodels, fun id => hturned.stores.leads (h.blobs id),
    fun id => hturned.files.leads (h.files id)⟩

theorem Tells.run {start m : MemoryStore} {c : Chronicle σ} (h : Tells start c m)
    (deeds : List ((α : Type) × Deed α)) : ∃ n, Tells start (c.run deeds) n := by
  induction deeds generalizing c m with
  | nil => exact ⟨m, h⟩
  | cons deed deeds ih =>
    obtain ⟨n, hn⟩ := h.advance deed.2
    exact ih hn

/-! ### From the beginning -/

theorem tells_inMemory (deeds : List ((α : Type) × Deed α)) :
    ∃ m, Tells .empty ((start MemoryStore.empty).run deeds) m := by
  have hempty : SlotBackend.Models MemoryStore.empty .empty := rfl
  exact (tells_start hempty).run deeds

theorem bare_run (c : Chronicle ChunkedStore) (deeds : List ((α : Type) × Deed α)) :
    (c.run deeds).backend.bare = c.backend.bare := by
  induction deeds generalizing c with
  | nil => rfl
  | cons deed deeds ih =>
    exact (ih (c.advance deed.2)).trans (ChunkedStore.bare_perform deed.2 c.backend)

theorem tells_inChunks {config : ChunkedConfig} {s : ChunkedStore}
    (hcreate : ChunkedStore.create config = .ok s) (deeds : List ((α : Type) × Deed α)) :
    (∃ m, Tells .empty ((start s).run deeds) m) ∧
      ((start s).run deeds).backend.bare = .empty config := by
  obtain ⟨rfl, husable⟩ := ChunkedStore.usable_of_create hcreate
  have hempty : SlotBackend.Models (ChunkedStore.empty config) .empty :=
    ChunkedStore.models_empty husable
  exact ⟨(tells_start hempty).run deeds, bare_run _ deeds⟩

end Chronicle

end ContentVault
