import ContentVault.Proofs.Store.Limits
import ContentVault.Proofs.Store.Listing
import ContentVault.Proofs.Vault.Session
import Mathlib.Data.List.Dedup
import Mathlib.Data.Multiset.Defs
set_option autoImplicit false

/-!
# Scripts and catalogues

A script is a list of calls to a store of blobs, some of which name the blob of an earlier ingest by
the number of its line.  What a script shows can be told without drawing stamps or tokens: a
catalogue keeps the blobs in the order in which they came, each content once, and names them by
their numbers.
-/

namespace ContentVault

/-- A call to a store of blobs, in which blobs are named by `κ`. -/
inductive Line (κ : Type) where
  | ingest (data : Bytes) (contentType : String) (deadline : Deadline)
  | get (source : κ) (deadline : Deadline)
  | updateStatus (source : κ) (status : Status) (deadline : Deadline)
  | matchHash (hash : UInt32) (deadline : Deadline)

namespace Line

variable {κ κ' : Type}

def deadline : Line κ → Deadline
  | ingest _ _ deadline | get _ deadline | updateStatus _ _ deadline | matchHash _ deadline =>
    deadline

/-- What the line ingests. -/
def contents : Line κ → List Bytes
  | ingest data _ _ => [data]
  | _ => []

/-- Puts other names in the place of those of the line, if there are such. -/
def resolve (name? : κ → Option κ') : Line κ → Option (Line κ')
  | ingest data contentType deadline => some (ingest data contentType deadline)
  | get source deadline => (name? source).map (get · deadline)
  | updateStatus source status deadline => (name? source).map (updateStatus · status deadline)
  | matchHash hash deadline => some (matchHash hash deadline)

theorem deadline_resolve {name? : κ → Option κ'} {line : Line κ} {line' : Line κ'}
    (h : line.resolve name? = some line') : line'.deadline = line.deadline := by
  cases line with
  | ingest | matchHash =>
    cases h
    rfl
  | get | updateStatus =>
    obtain ⟨name, _, rfl⟩ := Option.map_eq_some_iff.mp h
    rfl

theorem contents_resolve {name? : κ → Option κ'} {line : Line κ} {line' : Line κ'}
    (h : line.resolve name? = some line') : line'.contents = line.contents := by
  cases line with
  | ingest | matchHash =>
    cases h
    rfl
  | get | updateStatus =>
    obtain ⟨name, _, rfl⟩ := Option.map_eq_some_iff.mp h
    rfl

/-- The lines differ only in the names of blobs, which are related. -/
inductive Rel (r : κ → κ' → Prop) : Line κ → Line κ' → Prop where
  | ingest (data : Bytes) (contentType : String) (deadline : Deadline) :
    Rel r (ingest data contentType deadline) (ingest data contentType deadline)
  | get {source : κ} {source' : κ'} (h : r source source') (deadline : Deadline) :
    Rel r (get source deadline) (get source' deadline)
  | updateStatus {source : κ} {source' : κ'} (h : r source source') (status : Status)
    (deadline : Deadline) :
    Rel r (updateStatus source status deadline) (updateStatus source' status deadline)
  | matchHash (hash : UInt32) (deadline : Deadline) :
    Rel r (matchHash hash deadline) (matchHash hash deadline)

/-- Names that are related are put in the place of the same names. -/
theorem rel_resolve {κ'' : Type} {r : κ' → κ'' → Prop} {name? : κ → Option κ'}
    {name?' : κ → Option κ''} (h : ∀ source, Option.Rel r (name? source) (name?' source))
    (line : Line κ) : Option.Rel (Rel r) (line.resolve name?) (line.resolve name?') := by
  have hmap : ∀ {f : κ' → Line κ'} {g : κ'' → Line κ''} (source : κ),
      (∀ {a b}, r a b → Rel r (f a) (g b)) →
        Option.Rel (Rel r) ((name? source).map f) ((name?' source).map g) := by
    intro f g source hfg
    have hnames := h source
    generalize name? source = a at hnames ⊢
    generalize name?' source = b at hnames ⊢
    cases hnames with
    | none => exact .none
    | some hab => exact .some (hfg hab)
  cases line with
  | ingest data contentType deadline => exact .some (.ingest data contentType deadline)
  | get source deadline => exact hmap source fun hab => .get hab deadline
  | updateStatus source status deadline =>
    exact hmap source fun hab => .updateStatus hab status deadline
  | matchHash hash deadline => exact .some (.matchHash hash deadline)

end Line

/-- What is ingested by a script. -/
def scriptContents (script : List (Line Nat)) : List Bytes := script.flatMap Line.contents

/-- What the clocks show while a line is carried out. -/
structure Moment where
  /-- The reading of the clock of the leases. -/
  wall : UInt64
  timer : Instant

/-! ## What is shown of an answer -/

/-- The record under the identifier of its checksum with the stamp zero. -/
def ContentRecord.unstamped (record : ContentRecord) : ContentRecord :=
  record.withId ⟨record.id.hash, 0⟩

/-- What is shown of an answer: errors by their names, blobs without their stamps, and the blobs of
a checksum in no order. -/
inductive Shown where
  | failed (name : String)
  | ingested (blob : ContentRecord) (deduped : Bool)
  | retrieved (hash : UInt32) (bytes : Bytes) (contentType : String) (fileSize : UInt64)
    (status : Status)
  | changed
  | matched (blobs : Multiset ContentRecord)
  deriving DecidableEq

namespace Shown

/-- Shows an answer. -/
def ofAnswer {α : Type} (success : α → Shown) : Except VaultError α → Shown
  | .error e => failed e.name
  | .ok a => success a

def ofIngested (done : Ingested) : Shown := ingested done.record.unstamped done.deduped

def ofRetrieved (blob : Retrieved) : Shown :=
  retrieved blob.id.hash blob.bytes blob.contentType blob.fileSize blob.status

def ofMatched (blobs : List ContentRecord) : Shown :=
  matched (Multiset.ofList (blobs.map ContentRecord.unstamped))

end Shown

/-! ## Catalogues -/

/-- The blobs that were ingested, numbered in the order in which they came; and of each line so far,
which blob it ingested, and what it showed unless it was passed over. -/
structure Catalogue where
  blobs : List ContentRecord := []
  names : List (Option Nat) := []
  shown : List (Option Shown) := []

namespace Catalogue

/-- What comes of a line: what it shows, which blob it ingested, and the blobs after it. -/
structure Result where
  shown : Shown
  name? : Option Nat
  blobs : List ContentRecord

/-- A line that fails changes nothing. -/
def failure (name : String) (blobs : List ContentRecord) : Result :=
  ⟨.failed s!"Store/{name}", none, blobs⟩

variable [Codec] (s : ContentStore) (limits : Limits)

/-- The record of content that is not stored yet. -/
def fresh (data : Bytes) (contentType : String) : ContentRecord :=
  .fresh ⟨s.checksum data, 0⟩ (Codec.compress data s.compressionLevel) contentType
    (UInt64.ofNat data.length)

/-- The blob has the checksum of the content and holds it. -/
def isCopy (data : Bytes) (blob : ContentRecord) : Bool :=
  blob.id.hash == s.checksum data
    && ContentStore.holds data (Codec.compress data s.compressionLevel) blob

/-- Content under a claim is stored if its lease is live and its record is not refused. -/
def commit (now : UInt64) (blobs : List ContentRecord) (data : Bytes) (contentType : String) :
    Result :=
  if now < Lease.expiry now s.reserver.policy.ttl.millisWord then
    match limits.commit? (fresh s data contentType) with
    | some name => failure name blobs
    | none => ⟨.ingested (fresh s data contentType) false, some blobs.length,
        blobs ++ [fresh s data contentType]⟩
  else failure "IdNotReserved" blobs

/-- Content that is stored is found; else it is claimed and committed. -/
def ingest (now : UInt64) (blobs : List ContentRecord) (data : Bytes) (contentType : String) :
    Result :=
  match blobs.zipIdx.find? fun entry => isCopy s data entry.1 with
  | some (blob, n) => ⟨.ingested blob true, some n, blobs⟩
  | none =>
    match limits.claim? with
    | some name => failure name blobs
    | none => commit s limits now blobs data contentType

/-- What comes of a line at a moment; one that comes too late fails. -/
def answer (t : Moment) (blobs : List ContentRecord) (line : Line Nat) : Result :=
  if line.deadline.isExpired t.timer then failure "Timeout" blobs
  else match line with
  | .ingest data contentType _ => ingest s limits t.wall blobs data contentType
  | .get n _ =>
    match blobs[n]? with
    | none => failure "NotFound" blobs
    | some blob => ⟨.ofAnswer .ofRetrieved (ContentStore.retrieve blob), none, blobs⟩
  | .updateStatus n status _ =>
    match blobs[n]? with
    | none => failure "NotFound" blobs
    | some blob =>
      match limits.status? blob status with
      | some name => failure name blobs
      | none => ⟨.changed, none, blobs.set n { blob with status }⟩
  | .matchHash hash _ => ⟨.ofMatched (blobs.filter (·.id.hash == hash)), none, blobs⟩

/-- The number of the blob that a line ingested. -/
def named? (c : Catalogue) (source : Nat) : Option Nat := c.names[source]?.join

/-- Carries a line out, unless the line that it names did not ingest. -/
def advance (t : Moment) (c : Catalogue) (line : Line Nat) : Catalogue :=
  match line.resolve c.named? with
  | none => { c with names := c.names ++ [none], shown := c.shown ++ [none] }
  | some line =>
    let result := answer s limits t c.blobs line
    ⟨result.blobs, c.names ++ [result.name?], c.shown ++ [some result.shown]⟩

/-- Carries a script out, each line at its moment. -/
def run (moment : Nat → Moment) (script : List (Line Nat)) : Catalogue :=
  script.foldl (fun c line => c.advance s limits (moment c.shown.length) line) {}

/-! ## No content is kept twice -/

/-- The blobs are contents that were ingested, each with its checksum, and no content twice. -/
structure Distinct (checksum : Bytes → UInt32) (contents : List Bytes)
    (blobs : List ContentRecord) : Prop where
  origin : ∀ blob ∈ blobs, ∃ data ∈ contents, blob.decompressed = .ok data ∧
    blob.id.hash = checksum data
  apart : (blobs.map ContentRecord.decompressed).Nodup

theorem distinct_nil (checksum : Bytes → UInt32) (contents : List Bytes) :
    Distinct checksum contents [] := by
  refine ⟨fun blob hblob => ?_, List.nodup_nil⟩
  cases hblob

theorem isCopy_iff {s : ContentStore} {data : Bytes}
    (hfaithful : Faithful s.compressionLevel data) (blob : ContentRecord) :
    isCopy s data blob = true ↔ blob.id.hash = s.checksum data ∧ blob.decompressed = .ok data := by
  rw [isCopy, Bool.and_eq_true, beq_iff_eq,
    ContentStore.holds_iff blob hfaithful.decompress_eq hfaithful.length_lt]

namespace Distinct

variable {s : ContentStore} {limits : Limits} {contents : List Bytes} {blobs : List ContentRecord}
  {data : Bytes}

/-- Content that no blob is a copy of may be appended. -/
theorem append_fresh (h : Distinct s.checksum contents blobs)
    (hfaithful : Faithful s.compressionLevel data) (hmem : data ∈ contents)
    (hnew : ∀ blob ∈ blobs, isCopy s data blob = false) (contentType : String) :
    Distinct s.checksum contents (blobs ++ [fresh s data contentType]) := by
  have hfresh : (fresh s data contentType).decompressed = .ok data :=
    ContentRecord.decompressed_fresh hfaithful.decompress_eq hfaithful.length_lt
  refine ⟨fun blob hblob => ?_, ?_⟩
  · rcases List.mem_append.mp hblob with hold | hlast
    · exact h.origin blob hold
    · cases List.mem_singleton.mp hlast
      exact ⟨data, hmem, hfresh, rfl⟩
  · rw [List.map_append, List.map_singleton, hfresh]
    refine List.Nodup.append h.apart (List.nodup_singleton _) fun content hold hlast => ?_
    cases List.mem_singleton.mp hlast
    obtain ⟨blob, hblob, hdata⟩ := List.mem_map.mp hold
    obtain ⟨data', _, hdata', hhash⟩ := h.origin blob hblob
    cases hdata'.symm.trans hdata
    have hcopy := (isCopy_iff hfaithful blob).mpr ⟨hhash, hdata⟩
    rw [hnew blob hblob] at hcopy
    cases hcopy

/-- A change of a status leaves the contents. -/
theorem set_status (h : Distinct s.checksum contents blobs) {n : Nat} {blob : ContentRecord}
    (hblob : blobs[n]? = some blob) (status : Status) :
    Distinct s.checksum contents (blobs.set n { blob with status }) := by
  refine ⟨fun blob' hblob' => ?_, ?_⟩
  · rcases List.mem_or_eq_of_mem_set hblob' with hold | rfl
    · exact h.origin blob' hold
    · exact h.origin blob (List.mem_of_getElem? hblob)
  · have hsame : (blobs.set n { blob with status }).map ContentRecord.decompressed
        = blobs.map ContentRecord.decompressed := map_set_of_key_eq hblob rfl
    exact hsame ▸ h.apart

/-- Every line keeps contents distinct. -/
theorem answer (h : Distinct s.checksum contents blobs) (t : Moment) {line : Line Nat}
    (hline : ∀ data ∈ line.contents, data ∈ contents ∧ Faithful s.compressionLevel data) :
    Distinct s.checksum contents (Catalogue.answer s limits t blobs line).blobs := by
  unfold Catalogue.answer
  split
  · exact h
  cases line with
  | ingest data contentType deadline =>
    obtain ⟨hmem, hfaithful⟩ := hline data (List.mem_singleton_self data)
    simp only [ingest]
    split
    · exact h
    next hnone =>
      split
      · exact h
      unfold commit
      split
      · split
        · exact h
        · refine h.append_fresh hfaithful hmem (fun blob hblob => ?_) contentType
          obtain ⟨n, hn⟩ := List.mem_iff_getElem?.mp hblob
          have hentry : (blob, n) ∈ blobs.zipIdx := List.mem_zipIdx_iff_getElem?.mpr hn
          exact Bool.eq_false_iff.mpr (List.find?_eq_none.mp hnone _ hentry)
      · exact h
  | get n deadline =>
    dsimp only
    split
    · exact h
    · exact h
  | updateStatus n status deadline =>
    dsimp only
    split
    · exact h
    next blob hblob =>
      split
      · exact h
      · exact h.set_status hblob status
  | matchHash hash deadline => exact h

/-- If content is not stored yet, fewer blobs have its checksum than contents do. -/
theorem length_filter_lt (h : Distinct s.checksum contents blobs)
    (hfaithful : Faithful s.compressionLevel data) (hmem : data ∈ contents)
    (hnew : ∀ blob ∈ blobs, isCopy s data blob = false) :
    (blobs.filter (·.id.hash == s.checksum data)).length
      < (contents.filter (s.checksum · == s.checksum data)).dedup.length := by
  let stored := (blobs.filter (·.id.hash == s.checksum data)).map ContentRecord.decompressed
  let expected : List (Except StoreError Bytes) :=
    (contents.filter (s.checksum · == s.checksum data)).dedup.map .ok
  have hnodup : (.ok data :: stored).Nodup := by
    refine List.nodup_cons.mpr ⟨fun hin => ?_, h.apart.sublist (List.filter_sublist.map _)⟩
    obtain ⟨blob, hblob, hdata⟩ := List.mem_map.mp hin
    obtain ⟨hblob, hhash⟩ := List.mem_filter.mp hblob
    have hcopy := (isCopy_iff hfaithful blob).mpr ⟨beq_iff_eq.mp hhash, hdata⟩
    rw [hnew blob hblob] at hcopy
    cases hcopy
  have hsubset : (.ok data :: stored) ⊆ expected := by
    intro content hcontent
    rcases List.mem_cons.mp hcontent with rfl | hcontent
    · refine List.mem_map_of_mem (List.mem_dedup.mpr (List.mem_filter.mpr ⟨hmem, ?_⟩))
      exact beq_self_eq_true _
    · obtain ⟨blob, hblob, rfl⟩ := List.mem_map.mp hcontent
      obtain ⟨hblob, hhash⟩ := List.mem_filter.mp hblob
      obtain ⟨data', hmem', hdata', hhash'⟩ := h.origin blob hblob
      rw [hdata']
      refine List.mem_map_of_mem (List.mem_dedup.mpr (List.mem_filter.mpr ⟨hmem', ?_⟩))
      exact hhash' ▸ hhash
  have hle := (List.subperm_of_subset hnodup hsubset).length_le
  simp only [List.length_cons, stored, expected, List.length_map] at hle
  exact hle

end Distinct

end Catalogue

end ContentVault
