import ContentVault.Proofs.Ident.Tokens
import ContentVault.Proofs.Vault.Filing
set_option autoImplicit false

/-!
# What a vault promises

Whatever was called before, and whatever the clocks, the stamps and the tokens were: files that
were uploaded are downloaded as they were, until they are removed; and what is done to one of
them touches no other file and no blob.
-/

namespace ContentVault.Vault

open Reserver (outcome)

variable {σ : Type}

/-! ## Idle calls -/

/-- The report tells of no change. -/
structure Report.IsIdle (report : Report σ) : Prop where
  present : ∀ history, present (report :: history) = present history
  lastStatus : ∀ history, lastStatus (report :: history) = lastStatus history
  issued? : report.issued? = none
  removes : ∀ id, ¬ report.Removes id

theorem Report.isIdle_error {α : Type} (call : Call α) (e : VaultError) (after : σ) :
    IsIdle ⟨call, .error e, after⟩ := by
  constructor
  case present =>
    intro history
    cases call <;> rfl
  case lastStatus =>
    intro history
    cases call <;> rfl
  case issued? => cases call <;> rfl
  case removes =>
    intro id
    cases call <;> exact fun hremoves => hremoves

theorem Report.isIdle_read {α : Type} {call : Call α} (hread : call.isRead = true)
    (result : Except VaultError α) (after : σ) : IsIdle ⟨call, result, after⟩ := by
  cases call with
  | upload => cases hread
  | rename => cases hread
  | remove => cases hread
  | updateStatus => cases hread
  | _ => exact ⟨fun _ => rfl, fun _ => rfl, rfl, fun _ hremoves => hremoves⟩

section

variable [Codec]

/-! ## Every call is told by the ledger -/

/-- What is committed is what the history tells of. -/
structure Told [Backend σ] (checksum : Bytes → UInt32) (c : Contents)
    (history : List (Report σ)) : Prop where
  shelved : Shelved checksum c history
  filed : Filed c history

section

variable [Backend σ] [FileBackend σ] {checksum : Bytes → UInt32} {c c' : Contents}
  {history : List (Report σ)}

theorem Told.idle (h : Told checksum c history) {report : Report σ} (hidle : report.IsIdle)
    (hafter : Keeps report.after c) : Told checksum c (report :: history) :=
  ⟨h.shelved.same hafter rfl (hidle.lastStatus history),
    h.filed.same (fun _ _ hholds => hholds) rfl (hidle.present history) hidle.issued?
      hidle.removes⟩

/-- A file that is named is present afterwards, and over its content. -/
theorem Told.uploaded (h : Told checksum c history) {name owner : String} {data : Bytes}
    {contentType : String} {blob : Ingested} {done : Uploaded} {after : σ}
    (hintake : Intake checksum data contentType c (.ok blob) c')
    {c'' : Contents} (hnaming : Naming blob name owner c' (.ok done) c'')
    (hafter : Keeps after c'') :
    Told checksum c'' (⟨.upload name owner data contentType, .ok done, after⟩ :: history) := by
  cases hnaming with
  | @named file hstore hstamp hname howner hnone =>
    subst hname howner
    have hblob : (c'.putFile file).blob? = c'.blob? := c'.blob?_putFile file
    have hfile : (c'.putFile file).file? = (c.putFile file).file? := by
      funext id
      rw [Contents.file?_putFile, Contents.file?_putFile, hintake.file?_eq]
    have hgrows : ∀ id content, c.HoldsUnder id content → (c'.putFile file).HoldsUnder id content :=
      fun id content hholds =>
        (Contents.holdsUnder_congr hblob id content).mpr (hintake.grows id content hholds)
    have hheld : (c'.putFile file).HoldsUnder file.id.store data := by
      rw [hstore, Contents.holdsUnder_congr hblob]
      exact hintake.holdsUnder fun id record hrecord => (h.shelved.known id record hrecord).1
    rw [hintake.file?_eq] at hnone
    exact ⟨h.shelved.intake hintake hblob _ hafter,
      h.filed.uploaded hgrows ⟨file, _, _, _⟩ hfile hnone hheld hstamp⟩

/-- What a call does, its report tells. -/
theorem Told.cons (h : Told checksum c history) {α : Type} {call : Call α}
    {result : Except VaultError α} {after : σ} (heffect : Effect checksum c call result c')
    (hafter : Keeps after c') : Told checksum c' (⟨call, result, after⟩ :: history) := by
  cases heffect with
  | failed e => exact h.idle (Report.isIdle_error call e after) hafter
  | read hread => exact h.idle (Report.isIdle_read hread result after) hafter
  | unnamed hintake e =>
    refine ⟨h.shelved.intake hintake rfl (.error e) hafter, ?_⟩
    exact h.filed.same hintake.grows hintake.file?_eq rfl rfl fun _ hremoves => hremoves
  | uploaded hintake hnaming => exact h.uploaded hintake hnaming hafter
  | renamed hfile =>
    exact ⟨h.shelved.same hafter (c.blob?_putFile _) rfl, h.filed.renamed hfile⟩
  | removed hfile =>
    exact ⟨h.shelved.same hafter (c.blob?_dropFile _) rfl, h.filed.removed hfile⟩
  | statusChanged hrecord =>
    refine ⟨h.shelved.statusChanged hrecord hafter, ?_⟩
    exact h.filed.same (fun _ _ => Contents.holdsUnder_setStatus) (c.file?_setStatus _ _) rfl rfl
      fun _ hremoves => hremoves

end

/-! ## Runs -/

/-- A call amid its surroundings: clocks, timer, tokens and stamps. -/
structure Turn where
  {answer : Type}
  call : Call answer
  around : World Unit

/-- A backend, and the reports of all calls so far, the latest first. -/
structure Session (σ : Type) where
  backend : σ
  history : List (Report σ) := []

namespace Session

variable [Backend σ]

/-- Carries a call out and reports it. -/
def advance (v : Vault) (s : Session σ) (turn : Turn) : Session σ :=
  let out := v.perform turn.call turn.around s.backend
  ⟨out.2, ⟨turn.call, out.1, out.2⟩ :: s.history⟩

/-- Carries calls out one after the other. -/
def run (v : Vault) (s : Session σ) (turns : List Turn) : Session σ := turns.foldl (advance v) s

variable [FileBackend σ]

/-- The backend keeps what the history tells of. -/
def IsTold (checksum : Bytes → UInt32) (s : Session σ) : Prop :=
  ∃ c, Keeps s.backend c ∧ Told checksum c s.history

theorem isTold_run {v : Vault} {s : Session σ} (h : s.IsTold v.content.checksum)
    (turns : List Turn)
    (hfaithful : ∀ turn ∈ turns, turn.call.IsFaithful v.content.compressionLevel) :
    (s.run v turns).IsTold v.content.checksum := by
  induction turns generalizing s with
  | nil => exact h
  | cons turn turns ih =>
    obtain ⟨c, hkeeps, htold⟩ := h
    obtain ⟨c', heffect, hkeeps'⟩ := v.effect_perform hkeeps turn.call
      (hfaithful turn List.mem_cons_self) turn.around
    have hnext : (s.advance v turn).IsTold v.content.checksum :=
      ⟨c', hkeeps', htold.cons heffect hkeeps'⟩
    exact ih hnext fun turn' hturn' => hfaithful turn' (List.mem_cons_of_mem _ hturn')

end Session

/-! ## What the calls answer -/

/-- The backends show the same blobs, and the same files but for one. -/
def SameButFile [Backend σ] (id : FileId) (b b' : σ) : Prop :=
  (∀ store, (Backend.getStore store b').1 = (Backend.getStore store b).1) ∧
    ∀ id', id' ≠ id → (Backend.getFile id' b').1 = (Backend.getFile id' b).1

/-- What is promised of a vault after some calls. -/
structure Lawful [Backend σ] (v : Vault) (s : Session σ) : Prop where
  /-- What was uploaded and not removed since is present, under its last name. -/
  uploaded : ∀ later earlier name owner data contentType done after,
    s.history = later ++ ⟨.upload name owner data contentType, .ok done, after⟩ :: earlier →
    (∀ report ∈ later, ¬ report.Removes done.file.id) →
    ({ done.file with name := lastName done.file.id name later, owner }, data) ∈ present s.history
  /-- A file that is present is downloaded by its identifier and by its token, with the type that
  its content was first stored with and the last status of its blob. -/
  download : ∀ file data, (file, data) ∈ present s.history → ∀ around : World Unit,
    ∃ contentType, FirstStored s.history data contentType ∧
      let content : Retrieved := ⟨file.storeId, data, contentType, UInt64.ofNat data.length,
        lastStatus s.history file.storeId⟩
      v.perform (.download file.id) around s.backend = (.ok (file, content), s.backend) ∧
      v.perform (.downloadToken file.id.token) around s.backend = (.ok (file, content), s.backend)
  distinct : ((present s.history).map (·.1.id)).Nodup
  /-- The files over a blob are those that are present with its content, in the order of their
  identifiers. -/
  filesForStore : ∀ store (around : World Unit), ∃ files,
    v.perform (.filesForStore store) around s.backend = (.ok files, s.backend) ∧
    files.Pairwise (fun f g => compare f.id g.id = .lt) ∧
    ∀ file, file ∈ files ↔
      ∃ data, (file, data) ∈ present s.history ∧ StoresUnder s.backend store data
  /-- What was removed and not issued since is absent, and had been issued. -/
  removed : ∀ later earlier id after, s.history = later ++ ⟨.remove id, .ok (), after⟩ :: earlier →
    (∀ report ∈ later, report.issued? ≠ some id) →
    Issued s.history id ∧ ∀ file data, (file, data) ∈ present s.history → file.id ≠ id
  /-- An identifier that no file has is not found, nor is its token if it was issued before. -/
  absent : ∀ id, (∀ file data, (file, data) ∈ present s.history → file.id ≠ id) →
    ∀ around : World Unit,
      let answer : Except VaultError (FileRecord × Retrieved) × σ :=
        (.error (.store (Identifier.absent id)), s.backend)
      v.perform (.download id) around s.backend = answer ∧
      (Issued s.history id → v.perform (.downloadToken id.token) around s.backend = answer)
  rename : ∀ id name (around : World Unit),
    SameButFile id s.backend (v.perform (.rename id name) around s.backend).2
  remove : ∀ id (around : World Unit),
    SameButFile id s.backend (v.perform (.remove id) around s.backend).2

section

variable [Backend σ] {v : Vault} {b : σ} {c : Contents} {history : List (Report σ)}

theorem perform_downloadToken {id : FileId} (hstamp : id.stamp ≠ []) (around : World Unit) :
    v.perform (.downloadToken id.token) around b = v.perform (.download id) around b := by
  change outcome (around.withBackend b) (v.downloadToken id.token)
    = outcome (around.withBackend b) (v.download id)
  rw [downloadToken, FileId.ofToken_token hstamp]

variable [FileBackend σ] (hkeeps : Keeps b c)

include hkeeps

theorem perform_download_of_none {id : FileId} (hnone : c.file? id = none) (around : World Unit) :
    v.perform (.download id) around b = (.error (.store (Identifier.absent id)), b) := by
  have hstart : Keeps (around.withBackend b).backend c := hkeeps
  change outcome (around.withBackend b) (v.download id) = _
  rw [outcome, run_download hstart, hnone]
  rfl

theorem perform_download {file : FileRecord} {record : ContentRecord} {data : Bytes}
    (hfile : c.file? file.id = some file) (hrecord : c.blob? file.storeId = some record)
    (hdata : record.decompressed = .ok data) (around : World Unit) :
    v.perform (.download file.id) around b
      = (.ok (file, ⟨record.id, data, record.contentType, record.fileSize, record.status⟩), b) := by
  have hstart : Keeps (around.withBackend b).backend c := hkeeps
  change outcome (around.withBackend b) (v.download file.id) = _
  rw [outcome, run_download hstart, hfile]
  simp only [hrecord, ContentVault.Session.retrieve_eq hdata]
  rfl

omit [Codec] in
theorem sameButFile {b' : σ} {c' : Contents} (hkeeps' : Keeps b' c') {id : FileId}
    (hblob : c'.blob? = c.blob?) (hfile : ∀ id', id' ≠ id → c'.file? id' = c.file? id') :
    SameButFile id b b' := by
  refine ⟨fun store => ?_, fun id' hid => ?_⟩
  · rw [hkeeps.getStore, hkeeps'.getStore, hblob]
  · rw [hkeeps.getFile, hkeeps'.getFile, hfile id' hid]

variable (htold : Told v.content.checksum c history)

include htold

theorem perform_download_of_present {file : FileRecord} {data : Bytes}
    (hmem : (file, data) ∈ present history) (around : World Unit) :
    ∃ contentType, FirstStored history data contentType ∧
      v.perform (.download file.id) around b
        = (.ok (file, ⟨file.storeId, data, contentType, UInt64.ofNat data.length,
          lastStatus history file.storeId⟩), b) := by
  have hfile := (htold.filed.file?_iff file.id file).mpr ⟨rfl, data, hmem⟩
  obtain ⟨record, hrecord, hdata⟩ := htold.filed.held file data hmem
  obtain ⟨hid, hstatus, data', hdata', _, hfirst⟩ := htold.shelved.known _ record hrecord
  cases hdata.symm.trans hdata'
  have hsize : record.fileSize = UInt64.ofNat data.length := by
    rw [((record.decompressed_eq_ok_iff data).mp hdata).2, UInt64.ofNat_toNat]
  refine ⟨record.contentType, hfirst, ?_⟩
  rw [perform_download hkeeps hfile hrecord hdata around, hid, hsize, hstatus]
  rfl

theorem perform_filesForStore (store : StoreId) (around : World Unit) :
    ∃ files, v.perform (.filesForStore store) around b = (.ok files, b) ∧
      files.Pairwise (fun f g => compare f.id g.id = .lt) ∧
      ∀ file, file ∈ files ↔ ∃ data, (file, data) ∈ present history ∧ StoresUnder b store data := by
  have hstart : Keeps (around.withBackend b).backend c := hkeeps
  obtain ⟨files, hfiles, hmem, hsorted⟩ := run_filesForStore hstart store
  refine ⟨files, ?_, hsorted fun id file hfile => ?_, fun file => ?_⟩
  · change outcome (around.withBackend b) (FileIndex.filesForStore store) = _
    rw [outcome, hfiles]
    rfl
  · exact ((htold.filed.file?_iff id file).mp hfile).1
  · rw [hmem]
    constructor
    · rintro ⟨id, rfl, hfile⟩
      obtain ⟨rfl, data, hpresent⟩ := (htold.filed.file?_iff id file).mp hfile
      refine ⟨data, hpresent, (hkeeps.storesUnder_iff _ data).mpr ?_⟩
      exact htold.filed.held file data hpresent
    · rintro ⟨data, hpresent, hstores⟩
      have hfile := (htold.filed.file?_iff file.id file).mpr ⟨rfl, data, hpresent⟩
      have hheld := htold.filed.held file data hpresent
      exact ⟨file.id, htold.shelved.apart _ _ data hheld
        ((hkeeps.storesUnder_iff store data).mp hstores), hfile⟩

/-- What is done to one file touches no other file and no blob. -/
theorem sameButFile_perform {α : Type} {call : Call α} {id : FileId}
    (hcall : call.altered? = some id) (around : World Unit) :
    SameButFile id b (v.perform call around b).2 := by
  have hfaithful : call.IsFaithful v.content.compressionLevel := by
    cases call with
    | upload => cases hcall
    | _ => trivial
  obtain ⟨c', heffect, hkeeps'⟩ := v.effect_perform hkeeps call hfaithful around
  generalize (v.perform call around b).1 = result at heffect
  cases heffect with
  | failed e => exact sameButFile hkeeps hkeeps' rfl fun _ _ => rfl
  | read hread => exact sameButFile hkeeps hkeeps' rfl fun _ _ => rfl
  | unnamed => cases hcall
  | uploaded => cases hcall
  | @renamed _ _ file hfile =>
    cases hcall
    have hid : file.id = id := ((htold.filed.file?_iff id file).mp hfile).1
    refine sameButFile hkeeps hkeeps' rfl fun id' hother => ?_
    rw [Contents.file?_putFile]
    exact if_neg fun heq => hother (heq.trans hid)
  | removed hfile =>
    cases hcall
    refine sameButFile hkeeps hkeeps' rfl fun id' hother => ?_
    rw [Contents.file?_dropFile, if_neg hother]
  | statusChanged => cases hcall

end

theorem Session.IsTold.lawful [Backend σ] [FileBackend σ] {v : Vault} {s : Session σ}
    (h : s.IsTold v.content.checksum) : v.Lawful s := by
  obtain ⟨c, hkeeps, htold⟩ := h
  constructor
  case uploaded =>
    intro later earlier name owner data contentType done after hhistory hkept
    rw [hhistory]
    exact mem_present_of_uploaded hkept
  case download =>
    intro file data hmem around
    obtain ⟨contentType, hfirst, hdownload⟩ :=
      perform_download_of_present hkeeps htold hmem around
    have hstamp := htold.filed.stamped file.id (htold.filed.issued file data hmem)
    refine ⟨contentType, hfirst, hdownload, ?_⟩
    rw [perform_downloadToken hstamp]
    exact hdownload
  case distinct => exact htold.filed.distinct
  case filesForStore =>
    intro store around
    exact perform_filesForStore hkeeps htold store around
  case removed =>
    intro later earlier id after hhistory hissued
    have hmem : ⟨.remove id, .ok (), after⟩ ∈ s.history := by
      rw [hhistory]
      exact List.mem_append_right _ List.mem_cons_self
    refine ⟨htold.filed.removals _ hmem id rfl, fun file data hfile => ?_⟩
    rw [hhistory] at hfile
    exact ne_of_removed hissued hfile
  case absent =>
    intro id habsent around
    have hnone : c.file? id = none := by
      rw [Option.eq_none_iff_forall_ne_some]
      intro file hfile
      obtain ⟨hid, data, hmem⟩ := (htold.filed.file?_iff id file).mp hfile
      exact habsent file data hmem hid
    have hdownload := perform_download_of_none (v := v) hkeeps hnone around
    refine ⟨hdownload, fun hissued => ?_⟩
    rw [perform_downloadToken (htold.filed.stamped id hissued)]
    exact hdownload
  case rename =>
    intro id name around
    exact sameButFile_perform hkeeps htold rfl around
  case remove =>
    intro id around
    exact sameButFile_perform hkeeps htold rfl around

end

/-- With any codec, over either backend and after any calls, a vault keeps its promises. -/
theorem vault_lawful [Codec] (v : Vault) (turns : List Turn)
    (hfaithful : ∀ turn ∈ turns, turn.call.IsFaithful v.content.compressionLevel) :
    v.Lawful (Session.run v ⟨MemoryStore.empty, []⟩ turns) ∧
    ∀ config s, ChunkedStore.create config = .ok s → v.Lawful (Session.run v ⟨s, []⟩ turns) := by
  have htold : ∀ {σ : Type} [Backend σ] [FileBackend σ] (b : σ),
      SlotBackend.Models b MemoryStore.empty →
      (⟨b, []⟩ : Session σ).IsTold v.content.checksum := by
    intro σ _ _ b hmodels
    exact ⟨.empty, ⟨_, hmodels, rfl⟩, .empty, .empty⟩
  constructor
  · exact (Session.isTold_run (htold _ rfl) turns hfaithful).lawful
  · intro config s hcreate
    obtain ⟨rfl, husable⟩ := ChunkedStore.usable_of_create hcreate
    have hmodels := ChunkedStore.models_empty husable
    exact (Session.isTold_run (htold _ hmodels) turns hfaithful).lawful

/-- Two files share a blob; one is renamed, the other removed, and its identifier is issued again.
Over a chunked store the first upload succeeds as well. -/
theorem vault_lawful_of_shared_blob :
    let _ : Codec := Compression.codec
    let config : StoreConfig := { chunkSize := 512, maxRecordBytes := 2048 }
    let v : Vault := ⟨config, .ofConfig config .manual, .ofConfig config .manual⟩
    let around : World Unit := {
      backend := (), manual := .still 0, system := .still 0, timer := 0, tokens := ⟨fun _ => 1, 0⟩,
      stamps := ⟨fun _ => 9, 0⟩, stampBytes := ⟨fun _ => 5, 0⟩, jitters := ⟨fun _ => 0, 0⟩,
      today := default }
    let store : StoreId := ⟨Crc.checksum [1, 2, 3], 9⟩
    let upload (name owner contentType : String) : Turn :=
      ⟨.upload name owner [1, 2, 3] contentType, around⟩
    let turns : List Turn := [upload "a" "alice" "text/plain", upload "b" "bob" "image/png",
      ⟨.rename ⟨store, [5]⟩ "c", around⟩, ⟨.remove ⟨store, [5, 5]⟩, around⟩,
      ⟨.updateStatus store .ok .never, around⟩, upload "d" "dave" "image/png"]
    let s := Session.run v ⟨MemoryStore.empty, []⟩ turns
    let chunked : Session ChunkedStore := ⟨.empty config.chunked, []⟩
    create config .manual = .ok v ∧
      (∀ turn ∈ turns, turn.call.IsFaithful v.content.compressionLevel) ∧
      (present s.history).map (fun (file, data) => (file.id, file.name, file.owner, data))
        = [(⟨store, [5, 5]⟩, "d", "dave", [1, 2, 3]), (⟨store, [5]⟩, "c", "alice", [1, 2, 3])] ∧
      lastStatus s.history store = .ok ∧ v.Lawful s ∧
      ChunkedStore.create config.chunked = .ok chunked.backend ∧
      (present (chunked.run v [upload "a" "alice" "text/plain"]).history).map (·.1.id)
        = [⟨store, [5]⟩] ∧
      v.Lawful (chunked.run v turns) := by
  intro _ config v around store upload turns s chunked
  have hdata : Faithful v.content.compressionLevel [1, 2, 3] :=
    ⟨by decide +kernel, by decide, by decide +kernel⟩
  have hfaithful : ∀ turn ∈ turns, turn.call.IsFaithful v.content.compressionLevel := by
    intro turn hturn
    simp only [turns, List.mem_cons, List.not_mem_nil, or_false] at hturn
    rcases hturn with rfl | rfl | rfl | rfl | rfl | rfl
    · exact hdata
    · exact hdata
    · trivial
    · trivial
    · trivial
    · exact hdata
  have hcreate : ChunkedStore.create config.chunked = .ok chunked.backend := rfl
  obtain ⟨hmemory, hchunked⟩ := vault_lawful v turns hfaithful
  exact ⟨rfl, hfaithful, by decide +kernel, by decide +kernel, hmemory, hcreate,
    by decide +kernel, hchunked config.chunked chunked.backend hcreate⟩

end ContentVault.Vault
