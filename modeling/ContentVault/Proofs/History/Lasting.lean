import ContentVault.Proofs.History.Chronicle
set_option autoImplicit false

/-!
# What is committed lasts

A committed blob keeps its content, content type and size for ever, and its identifier is
never claimed, committed or released again; only its status is changed.  A committed file is
changed only as a whole, until it is removed.
-/

namespace ContentVault

open Chronicle (turned_carryOut)

/-- Nothing that is a claim or ends one befalls a committed slot. -/
theorem Event.Turns.endsClaim_eq_false {χ ρ : Type} [Amends χ ρ] {event : Event χ ρ} {record : ρ}
    {slot : Option (Slot ρ)} (h : event.Turns (some (.committed record)) slot) :
    event.endsClaim = false := by
  cases h with
  | claimed hnone => cases hnone
  | changed => rfl
  | removed => rfl

/-! ## Claims, commits and releases -/

namespace Deed

variable {α : Type}

/-- The deed claims, commits or releases the blob. -/
inductive SeizesBlob (id : StoreId) : {α : Type} → Deed α → Prop where
  | claim (lease : Lease) (now : UInt64) : SeizesBlob id (.standing (.claimStore id lease now))
  | commit (lease : Lease) (record : ContentRecord)
    (hlength : record.content.length < UInt64.size) (now : UInt64) (schedule : List Nat) :
    SeizesBlob id (.standing (.commitStore ⟨id, lease⟩ record hlength now schedule))
  | commitUnder (lease : Lease) (record : ContentRecord)
    (hlength : record.content.length < UInt64.size) (clock : Clock) (schedule : List Nat) :
    SeizesBlob id (.commitStore ⟨id, lease⟩ record hlength clock schedule)
  | release (lease : Lease) : SeizesBlob id (.standing (.releaseStore ⟨id, lease⟩))

/-- The deed claims, commits or releases the file. -/
inductive SeizesFile (id : FileId) : {α : Type} → Deed α → Prop where
  | claim (lease : Lease) (now : UInt64) : SeizesFile id (.standing (.claimFile id lease now))
  | commit (lease : Lease) (record : FileRecord) (now : UInt64) :
    SeizesFile id (.standing (.commitFile ⟨id, lease⟩ record now))
  | commitUnder (lease : Lease) (record : FileRecord) (clock : Clock) :
    SeizesFile id (.commitFile ⟨id, lease⟩ record clock)
  | release (lease : Lease) : SeizesFile id (.standing (.releaseFile ⟨id, lease⟩))

/-- No deed removes a blob. -/
theorem ne_removed (deed : Deed α) {answer : Except StoreError α} {id : StoreId}
    {event : Event Status ContentRecord} (h : deed.onBlob? answer = some (id, event)) :
    event ≠ .removed := by
  rintro rfl
  cases deed with
  | standing op =>
    cases op with
    | claimStore id lease now =>
      cases answer with
      | error e => cases h
      | ok claimed => cases (Option.ite_none_right_eq_some.mp h).2
    | commitStore r record hlength now schedule => cases (Option.ite_none_right_eq_some.mp h).2
    | releaseStore r =>
      cases answer with
      | error e => cases h
      | ok released => cases (Option.ite_none_right_eq_some.mp h).2
    | reserveStore reserver candidate deadline around => cases answer <;> cases h
    | updateStatus id status => cases (Option.ite_none_right_eq_some.mp h).2
    | _ => cases h
  | commitStore r record hlength clock schedule => cases (Option.ite_none_right_eq_some.mp h).2
  | commitFile r record clock => cases h

/-- All that can come of a deed, if anything. -/
def ComesTo {κ χ ρ : Type} (happened? : Option (κ × Event χ ρ)) (id : κ) : Prop :=
  happened? = none ∨ ∃ event, happened? = some (id, event) ∧ event.endsClaim = true

theorem comesTo_ite {κ χ ρ : Type} {id : κ} {event : Event χ ρ} (h : event.endsClaim = true)
    (done : Bool) : ComesTo (if done then some (id, event) else none) id := by
  cases done with
  | false => exact Or.inl rfl
  | true => exact Or.inr ⟨event, rfl, h⟩

/-- A deed that seizes a blob does nothing to files. -/
theorem SeizesBlob.comesTo {id : StoreId} {deed : Deed α} (h : deed.SeizesBlob id)
    (answer : Except StoreError α) :
    ComesTo (deed.onBlob? answer) id ∧ deed.onFile? answer = none := by
  cases h with
  | claim lease now =>
    cases answer with
    | error e => exact ⟨Or.inl rfl, rfl⟩
    | ok claimed => exact ⟨comesTo_ite rfl claimed, rfl⟩
  | commit lease record hlength now schedule => exact ⟨comesTo_ite rfl _, rfl⟩
  | commitUnder lease record hlength clock schedule => exact ⟨comesTo_ite rfl _, rfl⟩
  | release lease =>
    cases answer with
    | error e => exact ⟨Or.inl rfl, rfl⟩
    | ok released => exact ⟨comesTo_ite rfl released, rfl⟩

/-- A deed that seizes a file does nothing to blobs. -/
theorem SeizesFile.comesTo {id : FileId} {deed : Deed α} (h : deed.SeizesFile id)
    (answer : Except StoreError α) :
    ComesTo (deed.onFile? answer) id ∧ deed.onBlob? answer = none := by
  cases h with
  | claim lease now =>
    cases answer with
    | error e => exact ⟨Or.inl rfl, rfl⟩
    | ok claimed => exact ⟨comesTo_ite rfl claimed, rfl⟩
  | commit lease record now => exact ⟨comesTo_ite rfl _, rfl⟩
  | commitUnder lease record clock => exact ⟨comesTo_ite rfl _, rfl⟩
  | release lease =>
    cases answer with
    | error e => exact ⟨Or.inl rfl, rfl⟩
    | ok released => exact ⟨comesTo_ite rfl released, rfl⟩

end Deed

/-- What would seize a committed identifier does nothing. -/
theorem SlotMap.Turned.eq_none {κ χ ρ : Type} [Ord κ] [Amends χ ρ] {m n : SlotMap κ ρ}
    {happened? : Option (κ × Event χ ρ)} (h : m.Turned n happened?) {id : κ}
    (hcomes : Deed.ComesTo happened? id) {record : ρ} (hrecord : m.record? id = some record) :
    happened? = none := by
  rcases hcomes with hnone | ⟨event, rfl, hends⟩
  · exact hnone
  · have hturns := h.1
    rw [SlotMap.record?_eq_some hrecord] at hturns
    cases hends.symm.trans hturns.endsClaim_eq_false

/-! ## What a chronicle can tell of what is committed -/

namespace Chronicle

/-- Blobs are never removed. -/
theorem removed_not_mem_blobEvents {σ : Type} (c : Chronicle σ) (id : StoreId) :
    .removed ∉ c.blobEvents id := by
  intro hmem
  obtain ⟨report, _, habout⟩ := List.mem_flatMap.mp hmem
  cases hblob : report.deed.onBlob? report.answer with
  | none =>
    rw [hblob] at habout
    cases habout
  | some happened =>
    obtain ⟨id', event⟩ := happened
    have hevent := report.deed.ne_removed hblob
    rw [hblob, Event.about] at habout
    split at habout
    · exact hevent (List.mem_singleton.mp habout).symm
    · cases habout

variable {σ : Type} [Backend σ] [ChronicledBackend σ]

/-- The blob is what it was, with the status of the last change; nobody can seize it. -/
structure KeepsBlob (c : Chronicle σ) (id : StoreId) (record : ContentRecord) : Prop where
  getStore_eq : (Backend.getStore id c.backend).1
    = .ok (some { record with
        status := (Event.lastChange? (c.blobEvents id)).getD record.status })
  only_changed : ∀ event ∈ c.blobEvents id, ∃ status, event = .changed status
  in_vain : ∀ {α : Type} (deed : Deed α), deed.SeizesBlob id →
    deed.onBlob? (carryOut deed c.backend).1 = none ∧ (carryOut deed c.backend).2 = c.backend

/-- The file is what it was changed to last; nobody can seize it. -/
structure KeepsFile (c : Chronicle σ) (id : FileId) (record : FileRecord) : Prop where
  getFile_eq : (Backend.getFile id c.backend).1
    = .ok (some ((Event.lastChange? (c.fileEvents id)).getD record))
  only_changed : ∀ event ∈ c.fileEvents id, ∃ record, event = .changed record
  in_vain : ∀ {α : Type} (deed : Deed α), deed.SeizesFile id →
    deed.onFile? (carryOut deed c.backend).1 = none ∧ (carryOut deed c.backend).2 = c.backend

theorem keepsBlob {start m : MemoryStore} {c : Chronicle σ} (h : Tells start c m) {id : StoreId}
    {record : ContentRecord} (hrecord : start.stores.record? id = some record) :
    c.KeepsBlob id record := by
  have hleads := h.blobs id
  rw [SlotMap.record?_eq_some hrecord] at hleads
  obtain ⟨hchanged, hslot⟩ := hleads.of_committed (c.removed_not_mem_blobEvents id)
  have hkept : m.stores.record? id = some (Event.amended (c.blobEvents id) record) :=
    SlotMap.record?_of_get? hslot
  refine ⟨?_, hchanged, fun deed hseizes => ?_⟩
  · rw [SlotBackend.getStore h.models, hkept, Event.amended]
    cases Event.lastChange? (c.blobEvents id) <;> rfl
  · obtain ⟨n, _, hturned⟩ := turned_carryOut h.models deed
    obtain ⟨hcomes, hfile⟩ := hseizes.comesTo (carryOut deed c.backend).1
    have hblob := hturned.stores.eq_none hcomes hkept
    exact ⟨hblob, ChronicledBackend.unchanged h.models deed hblob hfile⟩

theorem keepsFile {start m : MemoryStore} {c : Chronicle σ} (h : Tells start c m) {id : FileId}
    {record : FileRecord} (hrecord : start.files.record? id = some record)
    (hremoved : .removed ∉ c.fileEvents id) : c.KeepsFile id record := by
  have hleads := h.files id
  rw [SlotMap.record?_eq_some hrecord] at hleads
  obtain ⟨hchanged, hslot⟩ := hleads.of_committed hremoved
  have hkept : m.files.record? id = some (Event.amended (c.fileEvents id) record) :=
    SlotMap.record?_of_get? hslot
  refine ⟨?_, hchanged, fun deed hseizes => ?_⟩
  · rw [ChronicledBackend.getFile h.models, hkept, Event.amended]
    cases Event.lastChange? (c.fileEvents id) <;> rfl
  · obtain ⟨n, _, hturned⟩ := turned_carryOut h.models deed
    obtain ⟨hcomes, hblob⟩ := hseizes.comesTo (carryOut deed c.backend).1
    have hfile := hturned.files.eq_none hcomes hkept
    exact ⟨hfile, ChronicledBackend.unchanged h.models deed hblob hfile⟩

end Chronicle

/-! ## For ever -/

/-- What is committed lasts whatever is done later, a file until it is removed. -/
structure Lasting {σ : Type} [Backend σ] [ChronicledBackend σ] (b : σ) : Prop where
  blobs : ∀ id record, (Backend.getStore id b).1 = .ok (some record) →
    ∀ later, ((Chronicle.start b).run later).KeepsBlob id record
  files : ∀ id record, (Backend.getFile id b).1 = .ok (some record) →
    ∀ later, .removed ∉ ((Chronicle.start b).run later).fileEvents id →
      ((Chronicle.start b).run later).KeepsFile id record

theorem lasting_of_models {σ : Type} [Backend σ] [ChronicledBackend σ] {b : σ} {m : MemoryStore}
    (h : SlotBackend.Models b m) : Lasting b := by
  refine ⟨fun id record hget later => ?_, fun id record hget later hremoved => ?_⟩
  · obtain ⟨n, hn⟩ := (Chronicle.tells_start h).run later
    rw [SlotBackend.getStore h] at hget
    exact Chronicle.keepsBlob hn (Except.ok.inj hget)
  · obtain ⟨n, hn⟩ := (Chronicle.tells_start h).run later
    rw [ChronicledBackend.getFile h] at hget
    exact Chronicle.keepsFile hn (Except.ok.inj hget) hremoved

/-- Over either backend, after any deeds, what is committed lasts. -/
theorem committed_lasts (earlier : List ((α : Type) × Deed α)) :
    Lasting ((Chronicle.start MemoryStore.empty).run earlier).backend ∧
    ∀ config s, ChunkedStore.create config = .ok s →
      Lasting ((Chronicle.start s).run earlier).backend := by
  refine ⟨?_, fun config s hcreate => ?_⟩
  · obtain ⟨m, hm⟩ := Chronicle.tells_inMemory earlier
    exact lasting_of_models hm.models
  · obtain ⟨⟨m, hm⟩, _⟩ := Chronicle.tells_inChunks hcreate earlier
    exact lasting_of_models hm.models

/-- A committed blob outlasts a claim at the end of time and a forged commit; its status changes. -/
theorem committed_lasts_through_seizures :
    let config : ChunkedConfig := ⟨2, 128, 1⟩
    let blob : ContentRecord := .fresh ⟨7, 0⟩ [1, 2, 3] "text/plain" 3
    let forged : ContentRecord := .fresh ⟨7, 0⟩ [] "forged" 0
    let never : UInt64 := 18446744073709551615
    let earlier : List ((α : Type) × Deed α) :=
      [⟨_, .standing (.claimStore blob.id ⟨1, 100⟩ 5)⟩,
       ⟨_, .commitStore ⟨blob.id, ⟨1, 100⟩⟩ blob (by decide) ⟨99, [7]⟩ []⟩]
    let later : List ((α : Type) × Deed α) :=
      [⟨_, .standing (.claimStore blob.id ⟨2, never⟩ never)⟩,
       ⟨_, .commitStore ⟨blob.id, ⟨1, never⟩⟩ forged (by decide) ⟨0, []⟩ []⟩,
       ⟨_, .standing (.updateStatus blob.id .ok)⟩]
    let c := (Chronicle.start MemoryStore.empty).run earlier
    (Backend.getStore blob.id c.backend).1 = .ok (some blob) ∧
      (Backend.getStore blob.id ((Chronicle.start c.backend).run later).backend).1
        = .ok (some { blob with status := .ok }) ∧
      ChunkedStore.create config = .ok (.empty config) ∧
      Lasting ((Chronicle.start (ChunkedStore.empty config)).run earlier).backend := by
  intro config blob forged never earlier later c
  have hget : (Backend.getStore blob.id c.backend).1 = .ok (some blob) := by decide +kernel
  have hcreate : ChunkedStore.create config = .ok (.empty config) := rfl
  obtain ⟨hmemory, hchunked⟩ := committed_lasts earlier
  refine ⟨hget, (hmemory.blobs blob.id blob hget later).getStore_eq.trans ?_, hcreate,
    hchunked config _ hcreate⟩
  have hlast : Event.lastChange? (((Chronicle.start c.backend).run later).blobEvents blob.id)
      = some .ok := by decide +kernel
  rw [hlast]
  rfl

end ContentVault
