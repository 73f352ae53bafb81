import ContentVault.Proofs.Vault.Naming
set_option autoImplicit false

/-!
# Calls to a vault

What each call may do to the committed blobs and files is said once, as cases; reads are told
by the answers that they give.
-/

namespace ContentVault

open Reserver (outcome)

/-- A deadline that is set now has not passed. -/
theorem StoreConfig.isExpired_deadlineAt (config : StoreConfig) (now : Instant) :
    (config.deadlineAt now).isExpired now = false := by
  unfold deadlineAt operationTimeout?
  split
  · rfl
  next timeout htimeout =>
    split at htimeout
    · cases htimeout
    next hpositive =>
      cases htimeout
      have hmillis : config.operationTimeoutMillis.toNat ≠ 0 := fun h =>
        hpositive (UInt64.toNat_inj.mp h)
      unfold Deadline.after
      dsimp only
      split
      · simp [Duration.ofMillis]
        omega
      · rfl

namespace Vault

/-- A call to a vault, by the type of its answer. -/
inductive Call : Type → Type where
  | upload (name owner : String) (data : Bytes) (contentType : String) : Call Uploaded
  | download (id : FileId) : Call (FileRecord × Retrieved)
  | downloadToken (token : String) : Call (FileRecord × Retrieved)
  | filesForStore (store : StoreId) : Call (List FileRecord)
  | rename (id : FileId) (name : String) : Call FileRecord
  | remove (id : FileId) : Call Unit
  | updateStatus (id : StoreId) (status : Status) (deadline : Deadline) : Call Unit

namespace Call

variable {α : Type}

/-- What the call does. -/
def procedure [Codec] (v : Vault) : {α : Type} → Call α → Procedure (Except VaultError α)
  | _, .upload name owner data contentType => v.upload name owner data contentType
  | _, .download id => v.download id
  | _, .downloadToken token => v.downloadToken token
  | _, .filesForStore store => FileIndex.filesForStore store
  | _, .rename id name => FileIndex.rename id name
  | _, .remove id => FileIndex.remove id
  | _, .updateStatus id status deadline => ContentStore.updateStatus id status deadline

/-- What the call uploads is compressed faithfully. -/
def IsFaithful [Codec] (level : Int) : {α : Type} → Call α → Prop
  | _, .upload _ _ data _ => Faithful level data
  | _, _ => True

/-- The call changes nothing. -/
def isRead : {α : Type} → Call α → Bool
  | _, .download _ | _, .downloadToken _ | _, .filesForStore _ => true
  | _, _ => false

/-- The file that the call is to rename or to remove. -/
def altered? : {α : Type} → Call α → Option FileId
  | _, .rename id _ | _, .remove id => some id
  | _, _ => none

end Call

/-- Carries a call out on a backend amid its surroundings. -/
def perform [Codec] {σ α : Type} [Backend σ] (v : Vault) (call : Call α) (around : World Unit)
    (b : σ) : Except VaultError α × σ :=
  outcome (around.withBackend b) (call.procedure v)

/-- What a call may answer, and what becomes of the committed blobs and files. -/
inductive Effect [Codec] (checksum : Bytes → UInt32) (c : Contents) :
    {α : Type} → Call α → Except VaultError α → Contents → Prop where
  | failed {α : Type} {call : Call α} (e : VaultError) : Effect checksum c call (.error e) c
  | read {α : Type} {call : Call α} (hread : call.isRead = true) (answer : Except VaultError α) :
    Effect checksum c call answer c
  /-- The content was taken in, and no file was named. -/
  | unnamed {name owner : String} {data : Bytes} {contentType : String} {blob : Ingested}
    {c' : Contents} (hintake : Intake checksum data contentType c (.ok blob) c')
    (e : VaultError) : Effect checksum c (.upload name owner data contentType) (.error e) c'
  | uploaded {name owner : String} {data : Bytes} {contentType : String} {blob : Ingested}
    {done : Uploaded} {c' c'' : Contents}
    (hintake : Intake checksum data contentType c (.ok blob) c')
    (hnaming : Naming blob name owner c' (.ok done) c'') :
    Effect checksum c (.upload name owner data contentType) (.ok done) c''
  | renamed {id : FileId} {name : String} {file : FileRecord} (hfile : c.file? id = some file) :
    Effect checksum c (.rename id name) (.ok { file with name }) (c.putFile { file with name })
  | removed {id : FileId} {file : FileRecord} (hfile : c.file? id = some file) :
    Effect checksum c (.remove id) (.ok ()) (c.dropFile id)
  | statusChanged {id : StoreId} {status : Status} {deadline : Deadline} {record : ContentRecord}
    (hrecord : c.blob? id = some record) :
    Effect checksum c (.updateStatus id status deadline) (.ok ()) (c.setStatus id status)

section

variable {σ : Type} [Backend σ] [FileBackend σ] {w : World σ} {c : Contents} (h : Keeps w.backend c)

include h

/-! ## Reads of files -/

theorem run_getFile (id : FileId) :
    w.run (FileIndex.get id)
      = (ContentStore.ofStore (Identifier.require id (.ok (c.file? id))), w) := by
  have hget : w.run (ask (.getFile id)) = (.ok (c.file? id), w) := by
    change w.onBackend (Backend.getFile id) = _
    rw [World.onBackend, h.getFile]
  unfold FileIndex.get
  rw [World.run_bind, hget]
  rfl

theorem run_filesForStore (store : StoreId) :
    ∃ files, w.run (FileIndex.filesForStore store) = (.ok files, w) ∧
      (∀ file, file ∈ files ↔ ∃ id, id.store = store ∧ c.file? id = some file) ∧
      ((∀ id file, c.file? id = some file → file.id = id) →
        files.Pairwise fun f g => compare f.id g.id = .lt) := by
  obtain ⟨files, hfiles, hmem, hsorted⟩ := h.filesForStore store
  refine ⟨files, ?_, hmem, hsorted⟩
  have hread : w.run (ask (.filesForStore store)) = (.ok files, w) := by
    change w.onBackend (Backend.filesForStore store) = _
    rw [World.onBackend, hfiles]
  unfold FileIndex.filesForStore
  rw [World.run_bind, hread]
  rfl

variable [Codec]

/-! ## Changes -/

theorem effect_upload (v : Vault) (name owner : String) {data : Bytes}
    (hfaithful : Faithful v.content.compressionLevel data) (contentType : String) :
    let out := outcome w (v.upload name owner data contentType)
    ∃ c', Effect v.content.checksum c (.upload name owner data contentType) out.1 c' ∧
      Keeps out.2 c' := by
  intro out
  let deadline := v.config.deadlineAt w.timer
  have hout : out = outcome w (v.content.ingest data contentType deadline >>= _) := rfl
  obtain ⟨c', hintake, hkeeps⟩ := v.content.intake_ingest h hfaithful contentType deadline
  rw [hout, Reserver.outcome_bind]
  unfold outcome at hintake hkeeps
  generalize w.run (v.content.ingest data contentType deadline) = ingested at hintake hkeeps ⊢
  obtain ⟨answer, w'⟩ := ingested
  cases answer with
  | error e =>
    cases hintake
    exact ⟨c, .failed e, hkeeps⟩
  | ok blob =>
    obtain ⟨c'', hnaming, hkeeps'⟩ := v.naming_nameBlob hkeeps name owner blob deadline
    change ∃ c'', Effect _ _ _ (outcome w' (v.nameBlob name owner blob deadline)).1 c'' ∧
      Keeps (outcome w' (v.nameBlob name owner blob deadline)).2 c''
    refine ⟨c'', ?_, hkeeps'⟩
    generalize (outcome w' (v.nameBlob name owner blob deadline)).1 = answer at hnaming ⊢
    cases answer with
    | error e =>
      cases hnaming
      exact .unnamed hintake e
    | ok done => exact .uploaded hintake hnaming

theorem effect_rename (checksum : Bytes → UInt32) (id : FileId) (name : String) :
    let out := outcome w (FileIndex.rename id name)
    ∃ c', Effect checksum c (.rename id name) out.1 c' ∧ Keeps out.2 c' := by
  intro out
  have hout : out = outcome w (FileIndex.get id >>= _) := rfl
  rw [hout, Reserver.outcome_bind, run_getFile h]
  cases hfile : c.file? id with
  | none => exact ⟨c, .failed _, h⟩
  | some file =>
    let renamed : FileRecord := { file with name }
    let done := Backend.updateFile renamed w.backend
    have hupdate : w.run (ask (.updateFile renamed)) = (done.1, w.withBackend done.2) := rfl
    change ∃ c', Effect checksum c (.rename id name)
      (outcome w (ask (.updateFile renamed) >>= _)).1 c' ∧ Keeps (outcome w (_ >>= _)).2 c'
    rw [Reserver.outcome_bind, hupdate]
    rcases (h.updateFile renamed).ends with ⟨e, hfailed, hkeeps⟩ | ⟨hdone, _, hkeeps⟩
    · rw [show done.1 = _ from hfailed]
      exact ⟨c, .failed _, hkeeps⟩
    · rw [show done.1 = _ from hdone]
      exact ⟨_, .renamed hfile, hkeeps⟩

theorem effect_remove (checksum : Bytes → UInt32) (id : FileId) :
    let out := outcome w (FileIndex.remove id)
    ∃ c', Effect checksum c (.remove id) out.1 c' ∧ Keeps out.2 c' := by
  intro out
  have hout : out = (ContentStore.ofStore (Backend.removeFile id w.backend).1,
      (Backend.removeFile id w.backend).2) := rfl
  rw [hout]
  rcases (h.removeFile id).ends with ⟨e, hfailed, hkeeps⟩ | ⟨hdone, ⟨file, hfile⟩, hkeeps⟩
  · rw [hfailed]
    exact ⟨c, .failed _, hkeeps⟩
  · rw [hdone]
    exact ⟨_, .removed hfile, hkeeps⟩

theorem effect_updateStatus (checksum : Bytes → UInt32) (id : StoreId) (status : Status)
    (deadline : Deadline) :
    let out := outcome w (ContentStore.updateStatus id status deadline)
    ∃ c', Effect checksum c (.updateStatus id status deadline) out.1 c' ∧ Keeps out.2 c' := by
  intro out
  by_cases htime : deadline.isExpired w.timer = true
  · have hout : out = (.error (.store .timeout), w.backend) := by
      simp only [out, outcome, ContentStore.updateStatus, ContentStore.run_unlessPassed, htime,
        if_true]
    rw [hout]
    exact ⟨c, .failed _, h⟩
  · have hout : out = (ContentStore.ofStore (Backend.updateStatus id status w.backend).1,
        (Backend.updateStatus id status w.backend).2) := by
      simp only [out, outcome, ContentStore.updateStatus, ContentStore.run_unlessPassed, htime]
      rfl
    rw [hout]
    rcases (h.updateStatus id status).ends
      with ⟨e, hfailed, hkeeps⟩ | ⟨hdone, ⟨record, hrecord⟩, hkeeps⟩
    · rw [hfailed]
      exact ⟨c, .failed _, hkeeps⟩
    · rw [hdone]
      exact ⟨_, .statusChanged hrecord, hkeeps⟩

/-! ## Reads -/

theorem run_content (id : StoreId) {deadline : Deadline}
    (htime : deadline.isExpired w.timer = false) :
    w.run (ContentStore.get id deadline)
      = (match c.blob? id with
        | none => .error (.store (Identifier.absent id))
        | some record => ContentStore.retrieve record, w) := by
  obtain ⟨m, hmodels, rfl⟩ := h
  rw [ContentStore.run_get hmodels]
  simp only [htime]
  rfl

/-- A download shows the file and its blob, and changes nothing. -/
theorem run_download (v : Vault) (id : FileId) :
    w.run (v.download id)
      = (match c.file? id with
        | none => .error (.store (Identifier.absent id))
        | some file => match c.blob? file.storeId with
          | none => .error (.store (Identifier.absent file.storeId))
          | some record => (ContentStore.retrieve record).map (file, ·), w) := by
  let deadline := v.config.deadlineAt w.timer
  have hdownload : w.run (v.download id) = w.run (FileIndex.get id >>= _) := rfl
  rw [hdownload, World.run_bind, run_getFile h]
  cases hfile : c.file? id with
  | none => rfl
  | some file =>
    change w.run (ContentStore.get file.storeId deadline >>= _) = _
    rw [World.run_bind, run_content h _ (v.config.isExpired_deadlineAt w.timer)]
    dsimp only
    cases c.blob? file.storeId with
    | none => rfl
    | some record =>
      dsimp only
      cases ContentStore.retrieve record with
      | error e => rfl
      | ok content => rfl

theorem run_downloadToken_backend (v : Vault) (token : String) :
    (w.run (v.downloadToken token)).2 = w := by
  unfold downloadToken
  cases FileId.ofToken token with
  | error e => rfl
  | ok id => exact congrArg Prod.snd (run_download h v id)

end

/-! ## Every call -/

/-- A call has one of its effects. -/
theorem effect_perform [Codec] {σ α : Type} [Backend σ] [FileBackend σ] (v : Vault) {b : σ}
    {c : Contents} (h : Keeps b c) (call : Call α)
    (hfaithful : call.IsFaithful v.content.compressionLevel) (around : World Unit) :
    ∃ c', Effect v.content.checksum c call (v.perform call around b).1 c' ∧
      Keeps (v.perform call around b).2 c' := by
  have hstart : Keeps (around.withBackend b).backend c := h
  have hread : ∀ {call : Call α}, call.isRead = true →
      ((around.withBackend b).run (call.procedure v)).2 = around.withBackend b →
      ∃ c', Effect v.content.checksum c call (v.perform call around b).1 c' ∧
        Keeps (v.perform call around b).2 c' := by
    intro call hread hrun
    refine ⟨c, .read hread _, ?_⟩
    change Keeps ((around.withBackend b).run (call.procedure v)).2.backend c
    rw [hrun]
    exact h
  cases call with
  | upload name owner data contentType =>
    exact effect_upload hstart v name owner hfaithful contentType
  | download id => exact hread rfl (congrArg Prod.snd (run_download hstart v id))
  | downloadToken token => exact hread rfl (run_downloadToken_backend hstart v token)
  | filesForStore store =>
    obtain ⟨files, hfiles, _⟩ := run_filesForStore hstart store
    exact hread rfl (congrArg Prod.snd hfiles)
  | rename id name => exact effect_rename hstart v.content.checksum id name
  | remove id => exact effect_remove hstart v.content.checksum id
  | updateStatus id status deadline =>
    exact effect_updateStatus hstart v.content.checksum id status deadline

end Vault

end ContentVault
