import ContentVault.Proofs.Vault.Calls
set_option autoImplicit false

/-!
# The ledger of a vault

All that was called and answered is written down, the latest first.  From it follows which
files are there, with which contents, and what the status of each blob is.  Here the committed
blobs are shown to be those that the ledger tells of.
-/

namespace ContentVault.Vault

/-! ## What is written down -/

/-- A call that was carried out, its answer, and what it left behind. -/
structure Report (σ : Type) where
  {answer : Type}
  call : Call answer
  result : Except VaultError answer
  after : σ

variable {σ : Type}

namespace Report

/-- The files with their contents after the call, if those before it were `files`. -/
def amend : Report σ → List (FileRecord × Bytes) → List (FileRecord × Bytes)
  | ⟨.upload name owner data _, .ok done, _⟩, files =>
    ({ done.file with name, owner }, data) :: files
  | ⟨.rename id name, .ok _, _⟩, files =>
    files.map fun (file, data) => (if file.id = id then { file with name } else file, data)
  | ⟨.remove id, .ok _, _⟩, files => files.filter fun (file, _) => file.id ≠ id
  | _, files => files

/-- The statuses of blobs after the call, if those before it were `statuses`. -/
def restate : Report σ → (StoreId → Status) → StoreId → Status
  | ⟨.updateStatus id status _, .ok _, _⟩, statuses => Function.update statuses id status
  | _, statuses => statuses

/-- The call removed the file. -/
def Removes (id : FileId) : Report σ → Prop
  | ⟨.remove id', .ok _, _⟩ => id' = id
  | _ => False

/-- The name of a file after the call, if that before it was `name`. -/
def rename (id : FileId) : Report σ → String → String
  | ⟨.rename id' name', .ok _, _⟩, name => if id' = id then name' else name
  | _, name => name

/-- The identifier that the call issued. -/
def issued? : Report σ → Option FileId
  | ⟨.upload .., .ok done, _⟩ => some done.file.id
  | _ => none

/-- A file that is not removed stays, under the name that it then has. -/
theorem mem_amend {report : Report σ} {file : FileRecord} {data : Bytes}
    {files : List (FileRecord × Bytes)} (hmem : (file, data) ∈ files)
    (hkept : ¬ report.Removes file.id) :
    ({ file with name := report.rename file.id file.name }, data) ∈ report.amend files := by
  obtain ⟨call, result, after⟩ := report
  cases result with
  | error e => cases call <;> exact hmem
  | ok answer =>
    cases call with
    | upload name owner content contentType => exact List.mem_cons_of_mem _ hmem
    | rename id name =>
      refine List.mem_map.mpr ⟨(file, data), hmem, ?_⟩
      by_cases hid : file.id = id
      · simp only [rename, hid, if_true]
      · simp only [rename, hid, Ne.symm hid, if_false]
    | remove id =>
      refine List.mem_filter.mpr ⟨hmem, ?_⟩
      exact decide_eq_true fun hid => hkept hid.symm
    | _ => exact hmem

/-- No file has an identifier that none had and that is not issued. -/
theorem ne_of_mem_amend {report : Report σ} {id : FileId} {files : List (FileRecord × Bytes)}
    (hfiles : ∀ file data, (file, data) ∈ files → file.id ≠ id)
    (hissued : report.issued? ≠ some id) {file : FileRecord} {data : Bytes}
    (hmem : (file, data) ∈ report.amend files) : file.id ≠ id := by
  obtain ⟨call, result, after⟩ := report
  cases result with
  | error e => cases call <;> exact hfiles file data hmem
  | ok answer =>
    cases call with
    | upload name owner content contentType =>
      rcases List.mem_cons.mp hmem with heq | hmem
      · cases heq
        exact fun hid => hissued (congrArg some hid)
      · exact hfiles file data hmem
    | rename id' name =>
      obtain ⟨⟨old, data'⟩, hold, heq⟩ := List.mem_map.mp hmem
      cases heq
      split
      · exact hfiles old data hold
      · exact hfiles old data hold
    | remove id' => exact hfiles file data (List.mem_of_mem_filter hmem)
    | _ => exact hfiles file data hmem

end Report

/-- The files that are present after the reported calls, with their contents. -/
def present (history : List (Report σ)) : List (FileRecord × Bytes) :=
  history.foldr Report.amend []

/-- The name of a file that was first called `name`, after the reported calls. -/
def lastName (id : FileId) (name : String) (history : List (Report σ)) : String :=
  history.foldr (Report.rename id) name

/-- A file that was uploaded and not removed since is present, under its last name. -/
theorem mem_present_of_uploaded {later earlier : List (Report σ)} {name owner : String}
    {data : Bytes} {contentType : String} {done : Uploaded} {after : σ}
    (hkept : ∀ report ∈ later, ¬ report.Removes done.file.id) :
    ({ done.file with name := lastName done.file.id name later, owner }, data)
      ∈ present (later ++ ⟨.upload name owner data contentType, .ok done, after⟩ :: earlier) := by
  induction later with
  | nil => exact List.mem_cons_self
  | cons report later ih =>
    have hlater := ih fun report hreport => hkept report (List.mem_cons_of_mem _ hreport)
    exact Report.mem_amend hlater (hkept report List.mem_cons_self)

/-- A file that was removed is not present, unless its identifier was issued since. -/
theorem ne_of_removed {later earlier : List (Report σ)} {id : FileId} {after : σ}
    (hissued : ∀ report ∈ later, report.issued? ≠ some id) {file : FileRecord} {data : Bytes}
    (hmem : (file, data) ∈ present (later ++ ⟨.remove id, .ok (), after⟩ :: earlier)) :
    file.id ≠ id := by
  induction later generalizing file data with
  | nil => exact of_decide_eq_true (List.mem_filter.mp hmem).2
  | cons report later ih =>
    refine Report.ne_of_mem_amend (fun file data hold => ?_) (hissued report List.mem_cons_self)
      hmem
    exact ih (fun report hreport => hissued report (List.mem_cons_of_mem _ hreport)) hold

/-- The last status that each blob was given; processing begins with the first upload. -/
def lastStatus (history : List (Report σ)) : StoreId → Status :=
  history.foldr Report.restate fun _ => .inProgress

/-- The identifier was given to a file, which may have been removed since. -/
def Issued (history : List (Report σ)) (id : FileId) : Prop :=
  ∃ report ∈ history, report.issued? = some id

variable [Codec]

/-- The content was first stored by an upload of this content type. -/
def FirstStored [Backend σ] (history : List (Report σ)) (data : Bytes) (contentType : String) :
    Prop :=
  ∃ later earlier name owner result after,
    history = later ++ ⟨.upload name owner data contentType, result, after⟩ :: earlier ∧
    (∃ id, StoresUnder after id data) ∧ ∀ old ∈ earlier, ∀ id, ¬ StoresUnder old.after id data

theorem FirstStored.cons [Backend σ] {history : List (Report σ)} {data : Bytes}
    {contentType : String} (h : FirstStored history data contentType) (report : Report σ) :
    FirstStored (report :: history) data contentType := by
  obtain ⟨later, earlier, name, owner, result, after, rfl, hfirst⟩ := h
  exact ⟨report :: later, earlier, name, owner, result, after, rfl, hfirst⟩

/-! ## The blobs that it tells of -/

section

variable [Backend σ] {checksum : Bytes → UInt32} {c c' : Contents} {history : List (Report σ)}

/-- The committed blobs are those that the history tells of. -/
structure Shelved (checksum : Bytes → UInt32) (c : Contents) (history : List (Report σ)) :
    Prop where
  /-- Each holds a content of its checksum, and has the type that this was first stored with and the
  status that was set last. -/
  known : ∀ id record, c.blob? id = some record → record.id = id ∧
    record.status = lastStatus history id ∧ ∃ data, record.decompressed = .ok data ∧
      id.hash = checksum data ∧ FirstStored history data record.contentType
  apart : ∀ id id' data, c.HoldsUnder id data → c.HoldsUnder id' data → id = id'
  /-- Where there is no blob, no status was ever set. -/
  unset : ∀ id, c.blob? id = none → lastStatus history id = .inProgress
  /-- No content was ever lost. -/
  lasting : ∀ report ∈ history, ∀ id data, StoresUnder report.after id data → c.Holds data

namespace Shelved

theorem empty : Shelved checksum .empty ([] : List (Report σ)) := by
  constructor
  case known =>
    intro id record h
    cases h
  case apart =>
    rintro id id' data ⟨record, hrecord, _⟩
    cases hrecord
  case unset =>
    intro id _
    rfl
  case lasting =>
    intro report h
    cases h

/-- Content that is found lacking is lacking whatever its checksum. -/
theorem lacks (h : Shelved checksum c history) {data : Bytes}
    (habsent : ∀ id old, id.hash = checksum data → c.blob? id = some old →
      old.decompressed ≠ .ok data) : ¬ c.Holds data := by
  rintro ⟨id, record, hrecord, hdata⟩
  obtain ⟨_, _, data', hdata', hhash, _⟩ := h.known id record hrecord
  cases hdata.symm.trans hdata'
  exact habsent id record hhash hrecord hdata

variable [SlotBackend σ]

/-- What was ever stored, and what a report leaves behind, is held. -/
theorem lasting_cons (h : Shelved checksum c history) {report : Report σ}
    (hafter : Keeps report.after c')
    (hgrows : ∀ id data, c.HoldsUnder id data → c'.HoldsUnder id data) :
    ∀ old ∈ report :: history, ∀ id data, StoresUnder old.after id data → c'.Holds data := by
  intro old hold id data hstores
  rcases List.mem_cons.mp hold with rfl | hold
  · exact ⟨id, (hafter.storesUnder_iff id data).mp hstores⟩
  · obtain ⟨id', hholds⟩ := h.lasting old hold id data hstores
    exact ⟨id', hgrows id' data hholds⟩

/-- A call that leaves all blobs and statuses. -/
theorem same (h : Shelved checksum c history) {report : Report σ}
    (hafter : Keeps report.after c') (hblob : c'.blob? = c.blob?)
    (hstatus : lastStatus (report :: history) = lastStatus history) :
    Shelved checksum c' (report :: history) := by
  constructor
  case known =>
    intro id record hrecord
    rw [hblob] at hrecord
    rw [hstatus]
    obtain ⟨hid, hlast, data, hdata, hhash, hfirst⟩ := h.known id record hrecord
    exact ⟨hid, hlast, data, hdata, hhash, hfirst.cons report⟩
  case apart =>
    intro id id' data hholds hholds'
    rw [Contents.holdsUnder_congr hblob] at hholds hholds'
    exact h.apart id id' data hholds hholds'
  case unset =>
    intro id hnone
    rw [hblob] at hnone
    rw [hstatus]
    exact h.unset id hnone
  case lasting =>
    refine h.lasting_cons hafter fun id data hholds => ?_
    exact (Contents.holdsUnder_congr hblob id data).mpr hholds

/-- An upload that stores its content. -/
theorem stored (h : Shelved checksum c history) {name owner : String} {data : Bytes}
    {record : ContentRecord} {result : Except VaultError Uploaded} {after : σ}
    (hafter : Keeps after c') (hblob : c'.blob? = (c.putBlob record).blob?)
    (hhash : record.id.hash = checksum data) (hnone : c.blob? record.id = none)
    (habsent : ∀ id old, id.hash = checksum data → c.blob? id = some old →
      old.decompressed ≠ .ok data)
    (hdata : record.decompressed = .ok data) (hstatus : record.status = .inProgress) :
    Shelved checksum c'
      (⟨.upload name owner data record.contentType, result, after⟩ :: history) := by
  have hlacks := h.lacks habsent
  have hcases : ∀ {id old}, c'.blob? id = some old →
      id = record.id ∧ old = record ∨ c.blob? id = some old := by
    intro id old hold
    rw [hblob, Contents.blob?_putBlob] at hold
    by_cases hid : id = record.id
    · rw [if_pos hid] at hold
      cases hold
      exact Or.inl ⟨hid, rfl⟩
    · rw [if_neg hid] at hold
      exact Or.inr hold
  have hheld : c'.HoldsUnder record.id data := by
    refine ⟨record, ?_, hdata⟩
    rw [hblob, Contents.blob?_putBlob, if_pos rfl]
  have hfirst : FirstStored
      (⟨.upload name owner data record.contentType, result, after⟩ :: history) data
      record.contentType := by
    refine ⟨[], history, name, owner, result, after, rfl, ?_, fun old hold id hstores => ?_⟩
    · exact ⟨record.id, (hafter.storesUnder_iff record.id data).mpr hheld⟩
    · exact hlacks (h.lasting old hold id data hstores)
  constructor
  case known =>
    intro id old hold
    rcases hcases hold with ⟨rfl, rfl⟩ | hold
    · refine ⟨rfl, ?_, data, hdata, hhash, hfirst⟩
      rw [hstatus]
      exact (h.unset old.id hnone).symm
    · obtain ⟨hid, hlast, data', hdata', hhash', hfirst'⟩ := h.known id old hold
      exact ⟨hid, hlast, data', hdata', hhash', hfirst'.cons _⟩
  case apart =>
    intro id id' data' hholds hholds'
    obtain ⟨old, hold, hdata'⟩ := hholds
    obtain ⟨old', hold', hdata''⟩ := hholds'
    rcases hcases hold with ⟨rfl, rfl⟩ | hold
    · rcases hcases hold' with ⟨rfl, rfl⟩ | hold'
      · rfl
      · cases hdata.symm.trans hdata'
        exact absurd ⟨id', old', hold', hdata''⟩ hlacks
    · rcases hcases hold' with ⟨rfl, rfl⟩ | hold'
      · cases hdata.symm.trans hdata''
        exact absurd ⟨id, old, hold, hdata'⟩ hlacks
      · exact h.apart id id' data' ⟨old, hold, hdata'⟩ ⟨old', hold', hdata''⟩
  case unset =>
    intro id hid
    refine h.unset id ?_
    rw [hblob, Contents.blob?_putBlob] at hid
    by_cases hrecord : id = record.id
    · rw [if_pos hrecord] at hid
      cases hid
    · rwa [if_neg hrecord] at hid
  case lasting =>
    refine h.lasting_cons hafter fun id data' hholds => ?_
    exact (Contents.holdsUnder_congr hblob id data').mpr (Contents.holdsUnder_putBlob hnone hholds)

/-- A change of the status of a blob. -/
theorem statusChanged (h : Shelved checksum c history) {id : StoreId} {status : Status}
    {deadline : Deadline} {after : σ} {old : ContentRecord} (hold : c.blob? id = some old)
    (hafter : Keeps after (c.setStatus id status)) :
    Shelved checksum (c.setStatus id status)
      (⟨.updateStatus id status deadline, .ok (), after⟩ :: history) := by
  have hlast : lastStatus (⟨.updateStatus id status deadline, .ok (), after⟩ :: history)
      = Function.update (lastStatus history) id status := rfl
  -- Each blob is one that was there, but for its status.
  have hcases : ∀ {id' record'}, (c.setStatus id status).blob? id' = some record' →
      ∃ record, c.blob? id' = some record ∧
        record' = { record with status := if id' = id then status else record.status } := by
    intro id' record' hrecord'
    rw [Contents.blob?_setStatus] at hrecord'
    by_cases hid : id' = id
    · rw [if_pos hid, hold] at hrecord'
      cases hrecord'
      refine ⟨old, hid ▸ hold, ?_⟩
      rw [if_pos hid]
    · rw [if_neg hid] at hrecord'
      refine ⟨record', hrecord', ?_⟩
      rw [if_neg hid]
  have hheld : ∀ {id' data}, (c.setStatus id status).HoldsUnder id' data →
      c.HoldsUnder id' data := by
    rintro id' data ⟨record', hrecord', hdata⟩
    obtain ⟨record, hrecord, rfl⟩ := hcases hrecord'
    exact ⟨record, hrecord, hdata⟩
  constructor
  case known =>
    intro id' record' hrecord'
    obtain ⟨record, hrecord, rfl⟩ := hcases hrecord'
    obtain ⟨hid, hstatus, data, hdata, hhash, hfirst⟩ := h.known id' record hrecord
    refine ⟨hid, ?_, data, hdata, hhash, hfirst.cons _⟩
    rw [hlast, Function.update_apply, ← hstatus]
  case apart =>
    intro id₁ id₂ data hholds hholds'
    exact h.apart id₁ id₂ data (hheld hholds) (hheld hholds')
  case unset =>
    intro id' hnone
    have hid : id' ≠ id := by
      rintro rfl
      rw [Contents.blob?_setStatus, if_pos rfl, hold] at hnone
      cases hnone
    rw [Contents.blob?_setStatus, if_neg hid] at hnone
    rw [hlast, Function.update_of_ne hid]
    exact h.unset id' hnone
  case lasting =>
    exact h.lasting_cons hafter fun _ _ hholds => Contents.holdsUnder_setStatus hholds

/-- An upload, whatever becomes of its content and its name. -/
theorem intake (h : Shelved checksum c history) {name owner : String} {data : Bytes}
    {contentType : String} {taken : Except VaultError Ingested} {c'' : Contents}
    (hintake : Intake checksum data contentType c taken c') (hblob : c''.blob? = c'.blob?)
    (result : Except VaultError Uploaded) {after : σ} (hafter : Keeps after c'') :
    Shelved checksum c'' (⟨.upload name owner data contentType, result, after⟩ :: history) := by
  cases hintake with
  | failed e => exact h.same hafter hblob rfl
  | found hrecord hdata => exact h.same hafter hblob rfl
  | stored hhash hnone habsent hdata htype hstatus =>
    subst htype
    exact h.stored hafter hblob hhash hnone habsent hdata hstatus

end Shelved

end

end ContentVault.Vault
