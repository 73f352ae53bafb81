import ContentVault.Proofs.Vault.ChunkView
import ContentVault.Proofs.Vault.FirstHolder
import ContentVault.Proofs.Vault.Naming
import ContentVault.Proofs.Vault.Storing
set_option autoImplicit false

/-!
# Uploads that fail

An upload that fails leaves no file and no reservation of one.  It may leave the bytes stored; then,
or if they were stored before, the next upload of the bytes finds them.
-/

namespace ContentVault

section

variable {σ : Type} [Backend σ] [ReleasingBackend σ] {kind : World Unit → Prop} {b b' : σ}
  {m : MemoryStore}

/-! ## Files -/

/-- Under a claim, a file is committed, or nothing is changed. -/
theorem commitFileAt_of_reserved (now : UInt64) (r : Reservation FileId) (record : FileRecord)
    (m : MemoryStore) (hid : record.id = r.id) :
    let claimed : MemoryStore := { m with files := m.files.insert r.id (.reserved r.lease) }
    ChunkedStore.commitFileAt now r record claimed
        = (.ok (), { m with files := m.files.insert r.id (.committed record) }) ∨
      ChunkedStore.commitFileAt now r record claimed = (.error r.notReserved, claimed) := by
  intro claimed
  rw [ChunkedStore.commitFileAt_eq, if_pos hid]
  rcases m.files.commit_insert r record now with h | h
  · exact Or.inl (by rw [h])
  · exact Or.inr (by rw [h])

/-- What naming a blob comes to over slot maps. -/
inductive Names (lapsed : Lease → Prop) (blob : Ingested) (m : MemoryStore) :
    Except VaultError Uploaded → MemoryStore → Prop where
  | failed (e : VaultError) {files : SlotMap FileId FileRecord}
    (h : m.files.Freed (·.store = blob.record.id) lapsed files) :
    Names lapsed blob m (.error e) { m with files }
  | named (file : FileRecord) (files : SlotMap FileId FileRecord) :
    Names lapsed blob m (.ok ⟨file, blob.record.id, blob.record.fileSize, blob.deduped⟩)
      { m with files }

/-- Under a claim, a file is inserted, or nothing is changed. -/
inductive Insertion (r : Reservation FileId) (m : MemoryStore) :
    Except VaultError FileRecord → MemoryStore → Prop where
  | inserted (file : FileRecord) :
    Insertion r m (.ok file) { m with files := m.files.insert r.id (.committed file) }
  | failed (e : VaultError) :
    Insertion r m (.error e) { m with files := m.files.insert r.id (.reserved r.lease) }

theorem FileIndex.ensures_insert (i : FileIndex) {r : Reservation FileId}
    (hmodels : SlotBackend.Models b'
      { m with files := m.files.insert r.id (.reserved r.lease) }) (name owner : String) :
    Ensures kind (fun answer => StandsFor (Insertion r m answer)) (i.insert r name owner) b' := by
  unfold insert
  refine Ensures.bind (Ensures.ask_local trivial fun around _ => Ensures.bind fun around' _ => ?_)
  let file : FileRecord := ⟨r.id, name, owner, (World.answer .today (around.withBackend b')).1⟩
  obtain ⟨clock', done, hcommit, hfollows⟩ :=
    FileBackend.commitFile hmodels r file ((around'.withBackend b').clock i.reserver.clock)
  have hanswered : (World.answer (.commitFile i.reserver.clock r file)
        (around'.withBackend b')).1 = done.1 ∧
      (World.answer (.commitFile i.reserver.clock r file)
        (around'.withBackend b')).2.backend = done.2 := World.onClocked_eq hcommit
  change Ensures kind _ _
    (World.answer (.commitFile i.reserver.clock r file) (around'.withBackend b')).2.backend
  generalize World.answer (.commitFile i.reserver.clock r file) (around'.withBackend b') = out
    at hanswered ⊢
  obtain ⟨answer, w⟩ := out
  obtain ⟨hanswer, hbackend⟩ := hanswered
  change answer = done.1 at hanswer
  change w.backend = done.2 at hbackend
  rcases hfollows with ⟨e, _, hdone⟩ | ⟨hdone, hafter⟩
  · rw [hdone] at hanswer hbackend
    subst hanswer
    exact ⟨_, hbackend ▸ hmodels, .failed _⟩
  · rw [← hanswer] at hdone
    rw [← hbackend] at hafter
    rcases commitFileAt_of_reserved _ r file m rfl with hcommitted | hturned
    · rw [hcommitted] at hdone hafter
      subst hdone
      exact ⟨_, hafter, .inserted file⟩
    · rw [hturned] at hdone hafter
      subst hdone
      exact ⟨_, hafter, .failed _⟩

namespace Vault

/-- Under a claim, a file is committed, or the claim is given up. -/
theorem names_insert (v : Vault) {r : Reservation FileId} {lapsed : Lease → Prop}
    (hmodels : SlotBackend.Models b'
      { m with files := m.files.insert r.id (.reserved r.lease) })
    (hvacant : SlotMap.Vacant lapsed (m.files.get? r.id)) (blob : Ingested)
    (hstore : r.id.store = blob.record.id) (name owner : String) :
    Ensures kind (fun answer => StandsFor (Names lapsed blob m answer))
      (do
        match ← v.files.insert r name owner with
        | .error e =>
          let _ ← FileIndex.release r
          return .error e
        | .ok file => return .ok ⟨file, blob.record.id, blob.record.fileSize, blob.deduped⟩)
      b' := by
  refine Ensures.bind ((v.files.ensures_insert hmodels name owner).weaken ?_)
  rintro _ after ⟨_, hafter, ⟨file⟩ | ⟨e⟩⟩
  · exact ⟨_, hafter, .named file _⟩
  · have hreleased : SlotBackend.Models (Backend.releaseFile r after).2
        { m with files := m.files.erase r.id } := models_release (m := m) (r := r) hafter
    exact fun _ _ => ⟨_, hreleased, .failed e (hvacant.freed hstore)⟩

/-- Whatever happens around it, naming a blob comes to one of its ends. -/
theorem names_nameBlob [ClaimsSlots FileId FileRecord σ] (v : Vault)
    (hmodels : SlotBackend.Models b m) (name owner : String) (blob : Ingested)
    (deadline : Deadline) :
    Ensures kind (fun answer => StandsFor
        (Names (LapsesAmid kind v.files.reserver.clock) blob m answer))
      (v.nameBlob name owner blob deadline) b := by
  unfold nameBlob
  refine Ensures.bind (Ensures.bind (Ensures.ask_local trivial fun around _ => ?_))
  let candidate : FileId :=
    .first blob.record.id (World.answer .stampByte (around.withBackend b)).1
  have hnext : ∀ (id : FileId) byte, id.store = blob.record.id →
      (SlotKind.mutate id byte).store = blob.record.id := fun _ _ hid => hid
  have hcandidate : candidate.store = blob.record.id := rfl
  refine Ensures.bind (Ensures.bind
    ((v.files.reserver.ensures_reserve hnext hcandidate deadline b).weaken ?_))
  rintro (e | r) b' hreserved
  · rw [show b' = b from hreserved]
    exact ⟨m, hmodels, .failed _ .same⟩
  · obtain ⟨hstore, hgranted⟩ := hreserved
    obtain ⟨hclaimed, hvacant⟩ := hgranted.reserved hmodels
    exact v.names_insert hclaimed hvacant blob hstore name owner

theorem Request.IsOnBlobs.fits {α : Type} {request : Request α} (h : request.IsOnBlobs) :
    request.Fits := by
  cases request with
  | commitStore => exact h
  | _ => trivial

/-- What naming a blob commits fits into the memory of a machine. -/
theorem fits_nameBlob (v : Vault) (name owner : String) (blob : Ingested) (deadline : Deadline) :
    Asks Request.Fits (v.nameBlob name owner blob deadline) := by
  have hclaim : ∀ (id : FileId) (lease : Lease) (now : UInt64),
      Asks Request.Fits (Reservable.claim id lease now) := fun id lease now =>
    asks_ask (r := .claimFile id lease now) trivial
  refine Asks.bind ((asks_ask (r := .stampByte) trivial).bind fun _ => trivial) fun candidate => ?_
  refine Asks.bind ((v.files.reserver.asks_reserve Request.IsLocal.fits hclaim candidate
    deadline).bind fun _ => trivial) fun reserved => ?_
  cases reserved with
  | error e => trivial
  | ok r =>
    refine Asks.bind ((asks_ask (r := .today) trivial).bind fun today =>
      (asks_ask (r := .commitFile ..) trivial).bind fun done => ?_) fun inserted => ?_
    · cases done <;> trivial
    · cases inserted with
      | error e =>
        exact Asks.bind ((asks_ask (r := .releaseFile r) trivial).bind fun _ => trivial) fun _ =>
          trivial
      | ok file => trivial

/-- What an upload commits fits into the memory of a machine, if its compressed content does. -/
theorem fits_upload [Codec] (v : Vault) (name owner : String) {data : Bytes}
    (contentType : String)
    (hlength : (Codec.compress data v.content.compressionLevel).length < UInt64.size) :
    Asks Request.Fits (v.upload name owner data contentType) := by
  have hdeadline : Asks Request.Fits v.config.deadline :=
    (asks_ask (r := .readTimer) trivial).bind fun _ => trivial
  refine hdeadline.bind fun deadline => ?_
  refine ((v.content.isOnBlobs_ingest contentType deadline hlength).imp
    Request.IsOnBlobs.fits).bind fun ingested => ?_
  cases ingested with
  | error e => trivial
  | ok blob => exact v.fits_nameBlob name owner blob deadline

/-- What an upload comes to over slot maps: bytes that are not stored, or that are and may be
named. -/
inductive Uploads [Codec] (v : Vault) (kind : World Unit → Prop) (data : Bytes)
    (contentType : String) (m : MemoryStore) : Except VaultError Uploaded → MemoryStore → Prop where
  | unstored {e : VaultError} {n : MemoryStore}
    (h : Ingests (LapsesAmid kind v.content.reserver.clock) (v.content.checksum data) data
      (Codec.compress data v.content.compressionLevel) contentType m (.error e) n) :
    Uploads v kind data contentType m (.error e) n
  | stored {blob : Ingested} {n after : MemoryStore} {answer : Except VaultError Uploaded}
    (h : Ingests (LapsesAmid kind v.content.reserver.clock) (v.content.checksum data) data
      (Codec.compress data v.content.compressionLevel) contentType m (.ok blob) n)
    (hnames : Names (LapsesAmid kind v.files.reserver.clock) blob n answer after) :
    Uploads v kind data contentType m answer after

/-- Whatever happens around it, an upload comes to one of its ends. -/
theorem uploads_upload [Codec] [ClaimsSlots StoreId ContentRecord σ]
    [ClaimsSlots FileId FileRecord σ] (v : Vault) (hmodels : SlotBackend.Models b m)
    (name owner : String) (data : Bytes) (contentType : String)
    (hlength : (Codec.compress data v.content.compressionLevel).length < UInt64.size) :
    Ensures kind (fun answer => StandsFor (v.Uploads kind data contentType m answer))
      (v.upload name owner data contentType) b := by
  have hlocal : IsLocal v.config.deadline :=
    (isLocal_ask (r := .readTimer) trivial).bind fun _ => trivial
  unfold upload
  refine Ensures.bind ((hlocal.ensures kind b).weaken ?_)
  intro deadline after hafter
  rw [show after = b from hafter]
  refine Ensures.bind ((v.content.ingests_ingest hmodels data contentType deadline hlength).weaken
    ?_)
  rintro (e | blob) after ⟨n, hn, hingests⟩
  · exact ⟨n, hn, .unstored hingests⟩
  · refine (v.names_nameBlob hn name owner blob deadline).weaken ?_
    rintro answer after ⟨n', hn', hnames⟩
    exact ⟨n', hn', .stored hingests hnames⟩

theorem uploads_amid [Codec] [ClaimsSlots StoreId ContentRecord σ]
    [ClaimsSlots FileId FileRecord σ] (v : Vault) (hmodels : SlotBackend.Models b m)
    (name owner : String) {data : Bytes} (contentType : String)
    (hfaithful : Faithful v.content.compressionLevel data) (around : Nat → World Unit) :
    let out := amid around (v.upload name owner data contentType) b
    StandsFor (v.Uploads (∃ n, · = around n) data contentType m out.1) out.2 :=
  (v.uploads_upload hmodels name owner data contentType hfaithful.compressed_lt).amid
    fun n => ⟨n, rfl⟩

end Vault

end

/-! ## What an upload leaves that fails -/

/-- Slots are what they were, but that one may be free whose lease had lapsed. -/
def FreesOne {κ ρ : Type} [DecidableEq κ] (P : κ → Prop) (lapsed : Lease → Prop)
    (before after : κ → Except StoreError (Option (Slot ρ))) : Prop :=
  after = before ∨ ∃ id lease, P id ∧ before id = .ok (some (.reserved lease)) ∧ lapsed lease ∧
    after = Function.update before id (.ok none)

theorem SlotMap.Freed.freesOne {κ ρ : Type} [Ord κ] [Std.TransOrd κ] [Std.LawfulEqOrd κ]
    [DecidableEq κ] {P Q : κ → Prop} {lapsed : Lease → Prop} {m n : SlotMap κ ρ}
    (h : m.Freed P lapsed n) (himp : ∀ id, P id → Q id) :
    FreesOne Q lapsed (fun id => .ok (m.get? id)) (fun id => .ok (n.get? id)) := by
  cases h with
  | same => exact Or.inl rfl
  | @lapsed id lease hid hslot hlapsed =>
    refine Or.inr ⟨id, lease, himp id hid, congrArg Except.ok hslot, hlapsed, funext fun id' => ?_⟩
    rw [OrderedMap.get?_erase, Function.update_apply]
    split
    · rfl
    · rfl

namespace MemoryStore

theorem SameRecords.keyed {m n : MemoryStore} (h : SameRecords m n) (hkeyed : m.Keyed) : n.Keyed :=
  hkeyed.of_record? fun id _ hrecord => Or.inl (h id ▸ hrecord)

theorem Keyed.insert {m : MemoryStore} (h : m.Keyed) (record : ContentRecord) :
    Keyed { m with stores := m.stores.insert record.id (.committed record) } := by
  refine h.of_record? fun id record' hrecord => ?_
  rw [SlotMap.record?_insert] at hrecord
  split at hrecord
  next hid =>
    cases hrecord
    exact Or.inr hid.symm
  · exact Or.inl hrecord

end MemoryStore

section

variable [Codec]

namespace Slots

/-- One blob more, just stored: of content that nobody held, under an identifier of its checksum
that was free or whose lease had lapsed. -/
structure Gains (lapsed : Lease → Prop) (hash : UInt32) (data : Bytes) (contentType : String)
    (before after : Slots) (id : StoreId) : Prop where
  hash_eq : id.hash = hash
  unheld : ∀ id', ¬before.Holds hash data id'
  vacant : before.blob id = .ok none ∨
    ∃ lease, before.blob id = .ok (some (.reserved lease)) ∧ lapsed lease
  stored : ∃ record : ContentRecord, record.id = id ∧ record.status = .inProgress ∧
    record.contentType = contentType ∧ record.decompressed = .ok data ∧
    after.blob = Function.update before.blob id (.ok (some (.committed record)))

/-- No other blob is committed that was not. -/
theorem Gains.record?_eq_none {lapsed : Lease → Prop} {hash : UInt32} {data : Bytes}
    {contentType : String} {m n : MemoryStore} {id id' : StoreId}
    (h : Gains lapsed hash data contentType m.slots n.slots id) (hid : id' ≠ id)
    (hnone : m.stores.record? id' = none) : n.stores.record? id' = none := by
  obtain ⟨record, _, _, _, _, hafter⟩ := h.stored
  have hslot : Except.ok (n.stores.get? id') = Except.ok (m.stores.get? id') :=
    (congrFun hafter id').trans (Function.update_of_ne hid _ _)
  rw [SlotMap.record?, Except.ok.inj hslot]
  exact hnone

/-- Content that is gained is held there first. -/
theorem Gains.holdsFirst {lapsed : Lease → Prop} {hash : UInt32} {data : Bytes}
    {contentType : String} {before after : Slots} {id : StoreId}
    (h : Gains lapsed hash data contentType before after id) : after.HoldsFirst hash data id := by
  obtain ⟨record, _, _, _, hdata, hafter⟩ := h.stored
  refine ⟨⟨h.hash_eq, record, ?_, hdata⟩, fun id' hholds => ?_⟩
  · rw [hafter, Function.update_self]
  · by_cases hid : id' = id
    · rw [hid]
      exact UInt16.le_refl _
    · obtain ⟨hhash, record', hrecord', hdata'⟩ := hholds
      rw [hafter, Function.update_of_ne hid] at hrecord'
      exact absurd ⟨hhash, record', hrecord', hdata'⟩ (h.unheld id')

end Slots

variable {lapsed : Lease → Prop} {data : Bytes} {hash : UInt32} {contentType : String}
  {level : Int} {m n : MemoryStore}

namespace Ingests

/-- What an ingest stores is gained, whatever becomes of the files; else nothing is. -/
theorem blobs {answer : Except VaultError Ingested}
    (h : Ingests lapsed hash data (Codec.compress data level) contentType m answer n)
    (hkeyed : m.Keyed) (hfaithful : Faithful level data) (files : SlotMap FileId FileRecord) :
    let after : MemoryStore := { n with files }
    after.Keyed ∧
      (FreesOne (·.hash = hash) lapsed m.slots.blob after.slots.blob ∧
          MemoryStore.SameRecords m after ∨
        ∃ id, Slots.Gains lapsed hash data contentType m.slots after.slots id) := by
  cases h with
  | @failed e stores h =>
    have hsame : MemoryStore.SameRecords m { stores, files } := h.record?_eq
    exact ⟨hsame.keyed hkeyed, Or.inl ⟨h.freesOne fun _ hid => hid, hsame⟩⟩
  | found hfirst => exact ⟨hkeyed, Or.inl ⟨Or.inl rfl, .refl m⟩⟩
  | @stored record hhash hfresh hnone hvacant =>
    refine ⟨hkeyed.insert record, Or.inr ⟨record.id, hhash,
      fun id => MemoryStore.not_holds_of_find? hfaithful hnone, ?_, record, rfl, ?_, ?_, ?_, ?_⟩⟩
    · rcases hvacant with hfree | ⟨lease, hslot, hlapsed⟩
      · exact Or.inl (congrArg Except.ok hfree)
      · exact Or.inr ⟨lease, congrArg Except.ok hslot, hlapsed⟩
    · rw [hfresh]
      rfl
    · rw [hfresh]
      rfl
    · rw [hfresh]
      exact ContentRecord.decompressed_fresh hfaithful.decompress_eq hfaithful.length_lt
    · funext id
      change Except.ok ((m.stores.insert record.id (.committed record)).get? id) = _
      rw [OrderedMap.get?_insert, Function.update_apply]
      split
      · rfl
      · rfl

theorem files_eq {answer : Except VaultError Ingested}
    (h : Ingests lapsed hash data (Codec.compress data level) contentType m answer n) :
    n.files = m.files := by
  cases h with
  | failed e h => rfl
  | found hfirst => rfl
  | stored hhash hfresh hnone hvacant => rfl

/-- Found or stored, a blob is one of the checksum. -/
theorem hash_eq {blob : Ingested}
    (h : Ingests lapsed hash data (Codec.compress data level) contentType m (.ok blob) n)
    (hkeyed : m.Keyed) (hfaithful : Faithful level data) : blob.record.id.hash = hash := by
  cases h with
  | found hfirst => exact (hkeyed.holdsFirst_of_find? hfaithful hfirst).holds.1
  | stored hhash hfresh hnone hvacant => exact hhash

end Ingests

namespace Vault

/-- The next upload of the content that succeeds finds it stored under the identifier. -/
def FindsUnder {σ : Type} [Backend σ] (v : Vault) (b : σ) (data : Bytes) (id : StoreId) : Prop :=
  ∀ name owner contentType (around : Nat → World Unit) done,
    (amid around (v.upload name owner data contentType) b).1 = .ok done →
      done.deduped = true ∧ done.store = id

/-- What an upload leaves that fails.  No file is there that was not, and no reservation of one.
The content may be stored and nothing else; then, or if it was stored before, the next upload
through a vault of the same checksum that compresses it faithfully finds it, and if several blobs
hold it, the first of them. -/
structure LeavesResumable {σ : Type} [Backend σ] [ShowsSlots σ] [ShowsChunks σ] (v : Vault)
    (kind : World Unit → Prop) (data : Bytes) (contentType : String) (before after : σ) :
    Prop where
  files : FreesOne (·.store.hash = v.content.checksum data)
    (LapsesAmid kind v.files.reserver.clock)
    (fun id => .ok ((slotsOf before).file id)) (fun id => .ok ((slotsOf after).file id))
  /-- The chunks of blobs stay, but for those of one that is gained. -/
  blobs : FreesOne (·.hash = v.content.checksum data) (LapsesAmid kind v.content.reserver.clock)
      (slotsOf before).blob (slotsOf after).blob ∧
        (∀ key, chunk? after key = chunk? before key) ∨
    ∃ id, Slots.Gains (LapsesAmid kind v.content.reserver.clock) (v.content.checksum data) data
      contentType (slotsOf before) (slotsOf after) id ∧
        ∀ key : ChunkKey, key.store ≠ id → chunk? after key = chunk? before key
  first : ∀ id, (slotsOf before).Holds (v.content.checksum data) data id →
    ∃ first, (slotsOf before).HoldsFirst (v.content.checksum data) data first
  resumes : ∀ id, (slotsOf before).HoldsFirst (v.content.checksum data) data id ∨
      Slots.Gains (LapsesAmid kind v.content.reserver.clock) (v.content.checksum data) data
        contentType (slotsOf before) (slotsOf after) id →
    ∀ w : Vault, w.content.checksum = v.content.checksum →
      Faithful w.content.compressionLevel data → w.FindsUnder after data id

namespace Uploads

variable {v : Vault} {kind : World Unit → Prop}

/-- Content that is held is found under its first holder. -/
theorem finds {done : Uploaded} {id : StoreId} (h : v.Uploads kind data contentType m (.ok done) n)
    (hkeyed : m.Keyed) (hfaithful : Faithful v.content.compressionLevel data)
    (hfirst : m.slots.HoldsFirst (v.content.checksum data) data id) :
    done.deduped = true ∧ done.store = id := by
  cases h with
  | stored h hnames =>
    cases hnames with
    | named file files =>
      cases h with
      | found hfound => exact ⟨rfl, (hkeyed.holdsFirst_of_find? hfaithful hfound).unique hfirst⟩
      | stored _ _ hnone _ =>
        exact absurd hfirst.holds (MemoryStore.not_holds_of_find? hfaithful hnone)

/-- An upload that fails does to the blobs what its ingest does, and may free a file. -/
theorem failed {e : VaultError} (h : v.Uploads kind data contentType m (.error e) n)
    (hkeyed : m.Keyed) (hfaithful : Faithful v.content.compressionLevel data) :
    let hash := v.content.checksum data
    let lapsed := LapsesAmid kind v.content.reserver.clock;
    n.Keyed ∧
      FreesOne (·.store.hash = hash) (LapsesAmid kind v.files.reserver.clock)
        (fun id => .ok (m.slots.file id)) (fun id => .ok (n.slots.file id)) ∧
      (FreesOne (·.hash = hash) lapsed m.slots.blob n.slots.blob ∧ MemoryStore.SameRecords m n ∨
        ∃ id, Slots.Gains lapsed hash data contentType m.slots n.slots id) := by
  cases h with
  | unstored h =>
    obtain ⟨hkeyed', hblobs⟩ := h.blobs hkeyed hfaithful n.files
    refine ⟨hkeyed', Or.inl (funext fun id => ?_), hblobs⟩
    change Except.ok (n.files.get? id) = Except.ok (m.files.get? id)
    rw [h.files_eq]
  | @stored blob stored _ _ h hnames =>
    cases hnames with
    | @failed _ files hfreed =>
      obtain ⟨hkeyed', hblobs⟩ := h.blobs hkeyed hfaithful files
      rw [h.files_eq] at hfreed
      refine ⟨hkeyed', hfreed.freesOne fun id hid => ?_, hblobs⟩
      rw [show id.store = blob.record.id from hid]
      exact h.hash_eq hkeyed hfaithful

end Uploads

/-- Over a backend whose blobs are under their own identifiers, an upload that fails can be
resumed. -/
theorem leavesResumable {σ : Type} [Backend σ] [ReleasingBackend σ]
    [ClaimsSlots StoreId ContentRecord σ] [ClaimsSlots FileId FileRecord σ] [ShowsChunks σ]
    (v : Vault) {b : σ} (hmodels : SlotBackend.Models b m) (hkeyed : m.Keyed) (name owner : String)
    (hfaithful : Faithful v.content.compressionLevel data) (around : Nat → World Unit)
    {e : VaultError}
    (hfailed : (amid around (v.upload name owner data contentType) b).1 = .error e) :
    v.LeavesResumable (∃ n, · = around n) data contentType b
      (amid around (v.upload name owner data contentType) b).2 := by
  have huploads := v.uploads_amid hmodels name owner contentType hfaithful around
  dsimp only at huploads
  rw [hfailed] at huploads
  obtain ⟨n, hafter, huploads⟩ := huploads
  obtain ⟨hkeyed', hfiles, hblobs⟩ := huploads.failed hkeyed hfaithful
  have hbefore := slotsOf_eq hmodels
  have hafterSlots := slotsOf_eq hafter
  refine ⟨?_, ?_, ?_, ?_⟩
  · rw [hbefore, hafterSlots]
    exact hfiles
  · have hfits := v.fits_upload name owner contentType hfaithful.compressed_lt
    rw [hbefore, hafterSlots]
    rcases hblobs with ⟨hfreed, hsame⟩ | ⟨id, hgains⟩
    · exact Or.inl ⟨hfreed, fun key =>
        hfits.chunk?_amid hmodels hafter fun hnone => (hsame key.store).trans hnone⟩
    · exact Or.inr ⟨id, hgains, fun key hkey =>
        hfits.chunk?_amid hmodels hafter (hgains.record?_eq_none hkey)⟩
  · rw [hbefore]
    exact fun id => hkeyed.exists_holdsFirst hfaithful
  · rw [hbefore, hafterSlots]
    intro id hid w hchecksum hfaithful' name owner contentType around' done hdone
    have hfirst : n.slots.HoldsFirst (w.content.checksum data) data id := by
      rw [hchecksum]
      rcases hid with hheld | hgained
      · rcases hblobs with ⟨_, hsame⟩ | ⟨id', hgains⟩
        · exact hheld.congr (hsame.holds_iff _ data)
        · exact absurd hheld.holds (hgains.unheld id)
      · exact hgained.holdsFirst
    have hnext := w.uploads_amid hafter name owner contentType hfaithful' around'
    dsimp only at hnext
    rw [hdone] at hnext
    obtain ⟨_, _, hnext⟩ := hnext
    exact hnext.finds hkeyed' hfaithful' hfirst

end Vault

end

/-! ## After any deeds -/

open Chronicle (start)

/-- With any codec, after any deeds and amid whatever changes, an upload that fails leaves no file
and no reservation of one; its content may be stored, or was stored before, and then the next upload
that succeeds finds it there. -/
theorem failed_upload_can_be_resumed [Codec] (deeds : List ((α : Type) × Deed α)) (v : Vault)
    (name owner : String) (data : Bytes) (contentType : String) (around : Nat → World Unit)
    (hfaithful : Faithful v.content.compressionLevel data) :
    (let b := ((start MemoryStore.empty).run deeds).backend
      let out := amid around (v.upload name owner data contentType) b
      ∀ e, out.1 = .error e →
        v.LeavesResumable (∃ n, · = around n) data contentType b out.2) ∧
    ∀ config created, ChunkedStore.create config = .ok created →
      let b := ((start created).run deeds).backend
      let out := amid around (v.upload name owner data contentType) b
      ∀ e, out.1 = .error e →
        v.LeavesResumable (∃ n, · = around n) data contentType b out.2 := by
  refine ⟨?_, fun config created hcreate => ?_⟩
  · obtain ⟨m, hmodels, hkeyed⟩ := Chronicle.exists_keyed (c := start MemoryStore.empty) rfl .empty
      deeds
    exact fun e => v.leavesResumable hmodels hkeyed name owner hfaithful around
  · obtain ⟨rfl, husable⟩ := ChunkedStore.usable_of_create hcreate
    obtain ⟨m, hmodels, hkeyed⟩ := Chronicle.exists_keyed (c := start (ChunkedStore.empty config))
      (ChunkedStore.models_empty husable) .empty deeds
    exact fun e => v.leavesResumable hmodels hkeyed name owner hfaithful around

/-- The lease of an earlier upload has lapsed and is taken over, but the new one lapses before the
file is committed: the lease is gone, the content is stored, and the next upload finds it. -/
theorem failed_upload_can_be_resumed_of_lapse :
    let _ : Codec := Compression.codec
    let world (now : UInt64) : World Unit := {
      backend := (), manual := .still now, system := .still 0, timer := 0,
      tokens := ⟨fun _ => 1, 0⟩, stamps := ⟨fun _ => 9, 0⟩, stampBytes := ⟨fun _ => 0, 0⟩,
      jitters := ⟨fun _ => 0, 0⟩, today := default }
    let around (n : Nat) := world (if n < 20 then 200 else 86400200)
    let v : Vault := ⟨default, ⟨⟨.standard, .manual⟩, 3, fun _ => 7⟩, ⟨⟨.standard, .manual⟩⟩⟩
    let upload := v.upload "name" "owner" [1, 2, 3] "text/plain"
    let file : FileId := .first ⟨7, 9⟩ 0
    let deeds : List ((α : Type) × Deed α) := [⟨_, .standing (.claimFile file ⟨5, 100⟩ 0)⟩]
    let b := ((start MemoryStore.empty).run deeds).backend
    let out := amid around upload b
    Faithful v.content.compressionLevel [1, 2, 3] ∧
      b.files.get? file = some (.reserved ⟨5, 100⟩) ∧
      out.1 = .error (.store (.idNotReserved file.token)) ∧ out.2.files.get? file = none ∧
      v.LeavesResumable (∃ n, · = around n) [1, 2, 3] "text/plain" b out.2 ∧
      (amid (fun _ => world 86400200) upload out.2).1
        = .ok ⟨⟨file, "name", "owner", default⟩, ⟨7, 9⟩, 3, true⟩ := by
  intro _ world around v upload file deeds b out
  have hfaithful : Faithful v.content.compressionLevel [1, 2, 3] :=
    Compression.faithful_of_length_lt (by decide) v.content.compressionLevel
  have hfailed : out.1 = .error (.store (.idNotReserved file.token)) := by decide +kernel
  refine ⟨hfaithful, by decide +kernel, hfailed, by decide +kernel, ?_, by decide +kernel⟩
  exact (failed_upload_can_be_resumed deeds v "name" "owner" [1, 2, 3] "text/plain" around
    hfaithful).1 _ hfailed

end ContentVault
