import ContentVault.Proofs.Store.Records
import ContentVault.Proofs.Store.SlotBackend
set_option autoImplicit false

/-!
# What a backend keeps

Leases aside, a backend is known by the blobs and the files that are committed in it.  Every
operation on files either fails and leaves these as they are, or changes one of them.
-/

namespace ContentVault

open ChunkedStore (commitAt commitAt_eq commitFileAt commitFileAt_eq)

/-- The committed blobs and files by their identifiers. -/
@[ext] structure Contents where
  blob? : StoreId → Option ContentRecord
  file? : FileId → Option FileRecord

namespace Contents

variable (c : Contents)

/-- Nothing is committed. -/
def empty : Contents := ⟨fun _ => none, fun _ => none⟩

/-- One blob more. -/
def putBlob (record : ContentRecord) : Contents :=
  { c with blob? := Function.update c.blob? record.id (some record) }

/-- A file more, or in the place of another. -/
def putFile (file : FileRecord) : Contents :=
  { c with file? := Function.update c.file? file.id (some file) }

/-- A file less. -/
def dropFile (id : FileId) : Contents := { c with file? := Function.update c.file? id none }

/-- A blob, if there is one, gets another status. -/
def setStatus (id : StoreId) (status : Status) : Contents :=
  { c with blob? := Function.update c.blob? id ((c.blob? id).map ({ · with status })) }

theorem blob?_putBlob (record : ContentRecord) (id : StoreId) :
    (c.putBlob record).blob? id = if id = record.id then some record else c.blob? id :=
  Function.update_apply ..

@[simp] theorem file?_putBlob (record : ContentRecord) : (c.putBlob record).file? = c.file? := rfl

theorem file?_putFile (file : FileRecord) (id : FileId) :
    (c.putFile file).file? id = if id = file.id then some file else c.file? id :=
  Function.update_apply ..

@[simp] theorem blob?_putFile (file : FileRecord) : (c.putFile file).blob? = c.blob? := rfl

theorem file?_dropFile (id id' : FileId) :
    (c.dropFile id).file? id' = if id' = id then none else c.file? id' :=
  Function.update_apply ..

@[simp] theorem blob?_dropFile (id : FileId) : (c.dropFile id).blob? = c.blob? := rfl

@[simp] theorem file?_setStatus (id : StoreId) (status : Status) :
    (c.setStatus id status).file? = c.file? := rfl

theorem blob?_setStatus (id : StoreId) (status : Status) (id' : StoreId) :
    (c.setStatus id status).blob? id'
      = if id' = id then (c.blob? id).map ({ · with status }) else c.blob? id' :=
  Function.update_apply ..

variable {c}

theorem setStatus_of_some {id : StoreId} {old : ContentRecord} (h : c.blob? id = some old)
    (status : Status) :
    c.setStatus id status
      = { c with blob? := Function.update c.blob? id (some { old with status }) } := by
  rw [setStatus, h, Option.map_some]

variable [Codec]

/-- The blob under an identifier holds the content. -/
def HoldsUnder (c : Contents) (id : StoreId) (data : Bytes) : Prop :=
  ∃ record, c.blob? id = some record ∧ record.decompressed = .ok data

/-- A blob holds the content. -/
def Holds (c : Contents) (data : Bytes) : Prop := ∃ id, c.HoldsUnder id data

variable {c' : Contents}

theorem holdsUnder_congr (h : c'.blob? = c.blob?) (id : StoreId) (data : Bytes) :
    c'.HoldsUnder id data ↔ c.HoldsUnder id data := by
  rw [HoldsUnder, HoldsUnder, h]

theorem holdsUnder_putBlob {record : ContentRecord} (hnone : c.blob? record.id = none)
    {id : StoreId} {data : Bytes} (h : c.HoldsUnder id data) :
    (c.putBlob record).HoldsUnder id data := by
  obtain ⟨old, hold, hdata⟩ := h
  have hid : id ≠ record.id := by
    rintro rfl
    rw [hnone] at hold
    cases hold
  refine ⟨old, ?_, hdata⟩
  rw [blob?_putBlob, if_neg hid, hold]

theorem holdsUnder_setStatus {id : StoreId} {status : Status} {id' : StoreId} {data : Bytes}
    (h : c.HoldsUnder id' data) : (c.setStatus id status).HoldsUnder id' data := by
  obtain ⟨old, hold, hdata⟩ := h
  by_cases hid : id' = id
  · refine ⟨{ old with status }, ?_, hdata⟩
    rw [blob?_setStatus, if_pos hid, ← hid, hold]
    rfl
  · refine ⟨old, ?_, hdata⟩
    rw [blob?_setStatus, if_neg hid, hold]

end Contents

/-! ## In slot maps -/

namespace SlotMap

variable {κ ρ : Type} [Ord κ] [Std.LawfulEqOrd κ] [Std.TransOrd κ] [DecidableEq κ]

theorem record?_insert_eq_update (m : SlotMap κ ρ) (id : κ) (slot : Slot ρ) :
    SlotMap.record? (m.insert id slot) = Function.update m.record? id slot.record? := by
  funext id'
  rw [record?_insert, Function.update_apply]

omit [Std.TransOrd κ] in
theorem record?_erase_eq_update (m : SlotMap κ ρ) (id : κ) :
    SlotMap.record? (m.erase id) = Function.update m.record? id none := by
  funext id'
  rw [record?_erase, Function.update_apply]

end SlotMap

/-- The committed blobs and files. -/
def MemoryStore.contents (m : MemoryStore) : Contents := ⟨m.stores.record?, m.files.record?⟩

/-! ## Over any backend -/

/-- A backend that carries out operations on files as slot maps do. -/
class FileBackend (σ : Type) [Backend σ] extends SlotBackend σ where
  /-- The lease holds or not at the first reading of the clock. -/
  commitFile {b : σ} {m : MemoryStore} (h : Models b m) (r : Reservation FileId)
    (file : FileRecord) (clock : Clock) :
    ∃ clock' out, Backend.commitFile r file (⟨b, clock⟩ : Clocked σ) = (out.1, ⟨out.2, clock'⟩) ∧
      Follows Models b out (commitFileAt clock.read.1 r file m)
  releaseFile {b : σ} {m : MemoryStore} (h : Models b m) (r : Reservation FileId) :
    Follows Models b (Backend.releaseFile r b) (Backend.releaseFile r m)
  getFile {b : σ} {m : MemoryStore} (h : Models b m) (id : FileId) :
    Backend.getFile id b = (.ok (m.files.record? id), b)
  updateFile {b : σ} {m : MemoryStore} (h : Models b m) (file : FileRecord) :
    Follows Models b (Backend.updateFile file b) (Backend.updateFile file m)
  removeFile {b : σ} {m : MemoryStore} (h : Models b m) (id : FileId) :
    Follows Models b (Backend.removeFile id b) (Backend.removeFile id m)
  filesForStore {b : σ} {m : MemoryStore} (h : Models b m) (store : StoreId) :
    Backend.filesForStore store b = (.ok (m.filesForStore store), b)

instance : FileBackend MemoryStore where
  commitFile := by
    rintro b _ rfl r file clock
    obtain ⟨clock', hcommit⟩ := MemoryStore.commitFile_eq b r file clock
    exact ⟨clock', _, hcommit, Or.inr ⟨rfl, rfl⟩⟩
  releaseFile h _ := Or.inr (h ▸ ⟨rfl, rfl⟩)
  getFile := @MemoryStore.getFile_of_models
  updateFile h _ := Or.inr (h ▸ ⟨rfl, rfl⟩)
  removeFile h _ := Or.inr (h ▸ ⟨rfl, rfl⟩)
  filesForStore h _ := h ▸ rfl

instance : FileBackend ChunkedStore where
  commitFile h r file clock := by
    obtain ⟨hconfig, writer, h⟩ := h
    exact h.commitFile hconfig r file clock
  releaseFile h r := by
    obtain ⟨hconfig, writer, h⟩ := h
    exact h.releaseFile hconfig r
  getFile := @ChunkedStore.getFile_of_models
  updateFile h file := by
    obtain ⟨hconfig, writer, h⟩ := h
    exact h.updateFile hconfig file
  removeFile h id := by
    obtain ⟨hconfig, writer, h⟩ := h
    exact h.removeFile hconfig id
  filesForStore h store := by
    obtain ⟨_, writer, h⟩ := h
    exact congrArg (Except.ok ·, _) (h.filesForStore store)

/-- The committed blobs and files of a backend. -/
def Keeps {σ : Type} [Backend σ] [SlotBackend σ] (b : σ) (c : Contents) : Prop :=
  ∃ m, SlotBackend.Models b m ∧ m.contents = c

theorem MemoryStore.keeps_contents (m : MemoryStore) : Keeps m m.contents := ⟨m, rfl, rfl⟩

/-- A change fails and leaves everything, or it is possible and leaves the contents `c'`. -/
inductive Changes {σ : Type} [Backend σ] [SlotBackend σ] (c c' : Contents) (possible : Prop) :
    Except StoreError Unit × σ → Prop where
  | failed {e : StoreError} {b : σ} (h : Keeps b c) : Changes c c' possible (.error e, b)
  | done {b : σ} (hpossible : possible) (h : Keeps b c') : Changes c c' possible (.ok (), b)

section

variable {σ : Type} [Backend σ] [SlotBackend σ] {b : σ} {c c' : Contents}

/-- What slot maps change, a backend that follows them changes. -/
theorem Changes.of_follows {m : MemoryStore} (h : SlotBackend.Models b m) {possible : Prop}
    {out : Except StoreError Unit × σ} {expected : Except StoreError Unit × MemoryStore}
    (hfollows : Follows SlotBackend.Models b out expected)
    (hexpected : Changes m.contents c' possible expected) :
    Changes m.contents c' possible out := by
  obtain ⟨answer, after⟩ := out
  rcases hfollows with ⟨e, _, hout⟩ | ⟨hanswer, hmodels⟩
  · cases hout
    exact .failed ⟨m, h, rfl⟩
  · change answer = expected.1 at hanswer
    subst hanswer
    cases hexpected with
    | failed hkeeps =>
      obtain ⟨m', rfl, hcontents⟩ := hkeeps
      exact .failed ⟨_, hmodels, hcontents⟩
    | done hpossible hkeeps =>
      obtain ⟨m', rfl, hcontents⟩ := hkeeps
      exact .done hpossible ⟨_, hmodels, hcontents⟩

theorem Changes.ends {possible : Prop} {out : Except StoreError Unit × σ}
    (h : Changes c c' possible out) :
    (∃ e, out.1 = .error e ∧ Keeps out.2 c) ∨ (out.1 = .ok () ∧ possible ∧ Keeps out.2 c') := by
  cases h with
  | failed hkeeps => exact Or.inl ⟨_, rfl, hkeeps⟩
  | done hpossible hkeeps => exact Or.inr ⟨rfl, hpossible, hkeeps⟩

end

/-! ## Operations on slot maps -/

namespace MemoryStore

variable (m : MemoryStore)

theorem changes_commitFileAt (now : UInt64) (r : Reservation FileId) (file : FileRecord) :
    Changes m.contents (m.contents.putFile file) (m.contents.file? file.id = none)
      (commitFileAt now r file m) := by
  rw [commitFileAt_eq]
  by_cases hid : file.id = r.id
  · rw [if_pos hid]
    cases hheld : (m.files.get? r.id).any (·.isHeldBy r.lease.token now) with
    | false =>
      rw [SlotMap.commit_of_not_held hheld]
      exact .failed m.keeps_contents
    | true =>
      rw [SlotMap.commit_of_held hheld]
      refine .done ?_ ⟨_, rfl, ?_⟩
      · refine SlotMap.record?_eq_none fun old hget => ?_
        rw [← hid, hget] at hheld
        cases hheld
      · rw [contents, SlotMap.record?_insert_eq_update, ← hid]
        rfl
  · rw [if_neg hid]
    exact .failed m.keeps_contents

theorem changes_updateFile (file : FileRecord) :
    Changes m.contents (m.contents.putFile file) (∃ old, m.contents.file? file.id = some old)
      (m.updateFile file) := by
  unfold updateFile SlotMap.replace
  cases hrecord : m.files.record? file.id with
  | none => exact .failed m.keeps_contents
  | some old =>
    refine .done ⟨old, hrecord⟩ ⟨_, rfl, ?_⟩
    rw [contents, SlotMap.record?_insert_eq_update]
    rfl

theorem changes_removeFile (id : FileId) :
    Changes m.contents (m.contents.dropFile id) (∃ old, m.contents.file? id = some old)
      (m.removeFile id) := by
  unfold removeFile SlotMap.remove
  cases hrecord : m.files.record? id with
  | none => exact .failed m.keeps_contents
  | some old =>
    refine .done ⟨old, hrecord⟩ ⟨_, rfl, ?_⟩
    rw [contents, SlotMap.record?_erase_eq_update]
    rfl

theorem changes_updateStatus (id : StoreId) (status : Status) :
    Changes m.contents (m.contents.setStatus id status) (∃ old, m.contents.blob? id = some old)
      (m.updateStatus id status) := by
  unfold updateStatus SlotMap.replace
  cases hrecord : m.stores.record? id with
  | none => exact .failed m.keeps_contents
  | some old =>
    refine .done ⟨old, hrecord⟩ ⟨_, rfl, ?_⟩
    have hblob : m.contents.blob? id = some old := hrecord
    rw [Contents.setStatus_of_some hblob, contents, SlotMap.record?_insert_eq_update]
    rfl

end MemoryStore

/-! ## The operations of any backend -/

namespace Keeps

section

variable {σ : Type} [Backend σ] [SlotBackend σ] {b : σ} {c : Contents} (h : Keeps b c)

include h

theorem getStore (id : StoreId) : Backend.getStore id b = (.ok (c.blob? id), b) := by
  obtain ⟨m, hmodels, rfl⟩ := h
  exact SlotBackend.getStore hmodels id

theorem updateStatus (id : StoreId) (status : Status) :
    Changes c (c.setStatus id status) (∃ old, c.blob? id = some old)
      (Backend.updateStatus id status b) := by
  obtain ⟨m, hmodels, rfl⟩ := h
  exact .of_follows hmodels (SlotBackend.updateStatus hmodels id status)
    (m.changes_updateStatus id status)

theorem claimFile (id : FileId) (lease : Lease) (now : UInt64) :
    Keeps (Backend.claimFile id lease now b).2 c := by
  obtain ⟨m, hmodels, rfl⟩ := h
  refine (SlotBackend.claimFile hmodels id lease now).exists_models hmodels rfl ?_
  change (⟨m.stores.record?, (m.files.claim id lease now).2.record?⟩ : Contents) = _
  rw [funext (SlotMap.record?_claim m.files id lease now)]
  rfl

end

section

variable {σ : Type} [Backend σ] [FileBackend σ] {b : σ} {c : Contents} (h : Keeps b c)

include h

theorem getFile (id : FileId) : Backend.getFile id b = (.ok (c.file? id), b) := by
  obtain ⟨m, hmodels, rfl⟩ := h
  exact FileBackend.getFile hmodels id

/-- A backend keeps what its reads show. -/
theorem unique {c' : Contents} (h' : Keeps b c') : c = c' := by
  have hblob : c.blob? = c'.blob? := by
    funext id
    have hread := (h.getStore id).symm.trans (h'.getStore id)
    exact Except.ok.inj (congrArg Prod.fst hread)
  have hfile : c.file? = c'.file? := by
    funext id
    have hread := (h.getFile id).symm.trans (h'.getFile id)
    exact Except.ok.inj (congrArg Prod.fst hread)
  exact Contents.ext hblob hfile

theorem releaseFile (r : Reservation FileId) : Keeps (Backend.releaseFile r b).2 c := by
  obtain ⟨m, hmodels, rfl⟩ := h
  refine (FileBackend.releaseFile hmodels r).exists_models hmodels rfl ?_
  change (⟨m.stores.record?, (m.files.release r).2.record?⟩ : Contents) = _
  rw [funext (SlotMap.record?_release m.files r)]
  rfl

theorem commitFile (r : Reservation FileId) (file : FileRecord) (clock : Clock) :
    ∃ clock' out, Backend.commitFile r file (⟨b, clock⟩ : Clocked σ) = (out.1, ⟨out.2, clock'⟩) ∧
      Changes c (c.putFile file) (c.file? file.id = none) out := by
  obtain ⟨m, hmodels, rfl⟩ := h
  obtain ⟨clock', out, hcommit, hfollows⟩ := FileBackend.commitFile hmodels r file clock
  exact ⟨clock', out, hcommit, .of_follows hmodels hfollows (m.changes_commitFileAt _ r file)⟩

theorem updateFile (file : FileRecord) :
    Changes c (c.putFile file) (∃ old, c.file? file.id = some old)
      (Backend.updateFile file b) := by
  obtain ⟨m, hmodels, rfl⟩ := h
  exact .of_follows hmodels (FileBackend.updateFile hmodels file) (m.changes_updateFile file)

theorem removeFile (id : FileId) :
    Changes c (c.dropFile id) (∃ old, c.file? id = some old) (Backend.removeFile id b) := by
  obtain ⟨m, hmodels, rfl⟩ := h
  exact .of_follows hmodels (FileBackend.removeFile hmodels id) (m.changes_removeFile id)

/-- The files over a blob are the committed ones, in the order that they are committed under. -/
theorem filesForStore (store : StoreId) :
    ∃ files, Backend.filesForStore store b = (.ok files, b) ∧
      (∀ file, file ∈ files ↔ ∃ id, id.store = store ∧ c.file? id = some file) ∧
      ((∀ id file, c.file? id = some file → file.id = id) →
        files.Pairwise fun f g => compare f.id g.id = .lt) := by
  obtain ⟨m, hmodels, rfl⟩ := h
  refine ⟨_, FileBackend.filesForStore hmodels store, fun file => ?_, fun hkeyed => ?_⟩
  · rw [MemoryStore.filesForStore, SlotMap.mem_recordsWhere_iff]
    simp only [beq_iff_eq]
    rfl
  · refine SlotMap.recordsWhere_pairwise m.files _ fun id id' file file' hlt hfile hfile' => ?_
    rw [hkeyed id file hfile, hkeyed id' file' hfile']
    exact hlt

end

end Keeps

/-- The blob that a backend shows under an identifier holds the content. -/
def StoresUnder [Codec] {σ : Type} [Backend σ] (b : σ) (id : StoreId) (data : Bytes) : Prop :=
  ∃ record, (Backend.getStore id b).1 = .ok (some record) ∧ record.decompressed = .ok data

theorem Keeps.storesUnder_iff [Codec] {σ : Type} [Backend σ] [SlotBackend σ] {b : σ} {c : Contents}
    (h : Keeps b c) (id : StoreId) (data : Bytes) :
    StoresUnder b id data ↔ c.HoldsUnder id data := by
  rw [StoresUnder, h.getStore]
  simp only [Except.ok.injEq, Contents.HoldsUnder]

end ContentVault
