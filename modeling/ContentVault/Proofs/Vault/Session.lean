import ContentVault.Content.Compression
import ContentVault.Proofs.Vault.Archive
set_option autoImplicit false

/-!
# Calls to a store of blobs

However the checksum is computed and the content compressed, and whatever the clocks, the stamps and
the tokens are: after any calls, what was ingested can be read, and equal identifiers mean equal
bytes.
-/

namespace ContentVault

open Reserver (outcome)

section

variable [Codec]

/-- A call to a store of blobs, by the type of its answer.  Each ingest may reserve and compress in
a way of its own. -/
inductive ContentCall : Type → Type where
  | ingest (reserver : Reserver) (level : Int) (data : Bytes) (contentType : String)
      (deadline : Deadline) : ContentCall Ingested
  | get (id : StoreId) (deadline : Deadline) : ContentCall Retrieved
  | record (id : StoreId) : ContentCall ContentRecord
  | updateStatus (id : StoreId) (status : Status) (deadline : Deadline) : ContentCall Unit
  | matchHash (hash : UInt32) (deadline : Deadline) : ContentCall (List ContentRecord)

namespace ContentCall

variable {α : Type}

/-- What the call does. -/
def procedure (checksum : Bytes → UInt32) :
    {α : Type} → ContentCall α → Procedure (Except VaultError α)
  | _, .ingest reserver level data contentType deadline =>
    ContentStore.ingest ⟨reserver, level, checksum⟩ data contentType deadline
  | _, .get id deadline => ContentStore.get id deadline
  | _, .record id => ContentStore.record id
  | _, .updateStatus id status deadline => ContentStore.updateStatus id status deadline
  | _, .matchHash hash deadline => ContentStore.matchHash hash deadline

/-- Carries the call out on a backend amid its surroundings. -/
def perform {σ : Type} [Backend σ] (checksum : Bytes → UInt32) (call : ContentCall α)
    (around : World Unit) (b : σ) : Except VaultError α × σ :=
  outcome (around.withBackend b) (call.procedure checksum)

/-- What was ingested by the call. -/
def ingested : {α : Type} → ContentCall α → Except VaultError α → List (Bytes × Ingested)
  | _, .ingest _ _ data _ _, .ok done => [(data, done)]
  | _, _, _ => []

/-- What the call ingests is compressed faithfully. -/
def IsFaithful : {α : Type} → ContentCall α → Prop
  | _, .ingest _ level data _ _ => Faithful level data
  | _, _ => True

end ContentCall

/-- A call amid its surroundings: clocks, timer, tokens and stamps. -/
structure Turn where
  {answer : Type}
  call : ContentCall answer
  around : World Unit

/-- A backend, and what was ingested into it so far. -/
structure Session (σ : Type) where
  backend : σ
  /-- The contents that were ingested with success, with what came of them; the latest first. -/
  ingested : List (Bytes × Ingested) := []

namespace Session

variable {σ : Type} [Backend σ] (checksum : Bytes → UInt32)

/-- Carries a call out. -/
def advance (s : Session σ) (turn : Turn) : Session σ :=
  let out := turn.call.perform checksum turn.around s.backend
  ⟨out.2, turn.call.ingested out.1 ++ s.ingested⟩

/-- Carries out calls one after the other. -/
def run (s : Session σ) (turns : List Turn) : Session σ := turns.foldl (advance checksum) s

/-- The backend stands for an archive of what was ingested. -/
def IsArchived [SlotBackend σ] (s : Session σ) : Prop :=
  ∃ m, SlotBackend.Models s.backend m ∧ Archive checksum m s.ingested

/-! ## Every call keeps the archive -/

variable {checksum} [SlotBackend σ] {s : Session σ}

theorem isArchived_ingest (h : s.IsArchived checksum) (reserver : Reserver) {level : Int}
    {data : Bytes} (hfaithful : Faithful level data) (contentType : String) (deadline : Deadline)
    (around : World Unit) :
    (s.advance checksum ⟨.ingest reserver level data contentType deadline, around⟩).IsArchived
      checksum := by
  obtain ⟨m, hmodels, harchive⟩ := h
  let call : ContentCall Ingested := .ingest reserver level data contentType deadline
  let store : ContentStore := ⟨reserver, level, checksum⟩
  have hstart : SlotBackend.Models (around.withBackend s.backend).backend m := hmodels
  change ∃ m', SlotBackend.Models
      (outcome (around.withBackend s.backend) (store.ingest data contentType deadline)).2 m' ∧
    Archive checksum m' (call.ingested
      (outcome (around.withBackend s.backend) (store.ingest data contentType deadline)).1
        ++ s.ingested)
  by_cases htime : deadline.isExpired (around.withBackend s.backend).timer = true
  · rw [store.outcome_ingest_of_expired data contentType htime]
    exact ⟨m, hmodels, harchive⟩
  · rw [Bool.not_eq_true] at htime
    rcases store.ingest_cases hstart contentType htime hfaithful.decompress_eq
        hfaithful.length_lt hfaithful.compressed_lt
      with ⟨id, existing, _, hrecord, hdata, hout⟩ | ⟨habsent, m', hsettled, hmodels'⟩
    · rw [hout]
      exact ⟨m, hmodels, harchive.found hrecord hdata⟩
    · refine ⟨m', hmodels', ?_⟩
      generalize (outcome (around.withBackend s.backend)
        (store.ingest data contentType deadline)).1 = answer at hsettled
      cases hsettled with
      | failed hsame => exact harchive.of_sameBlobs hsame.sameBlobs
      | stored hhash hnone hrecord? =>
        refine harchive.stored rfl hhash ?_ hnone habsent hrecord?
        exact ContentRecord.decompressed_fresh hfaithful.decompress_eq hfaithful.length_lt

/-- A call that reads and ingests nothing. -/
theorem isArchived_read (h : s.IsArchived checksum) {turn : Turn}
    (hout : ∀ m, SlotBackend.Models (turn.around.withBackend s.backend).backend m →
      ((turn.around.withBackend s.backend).run (turn.call.procedure checksum)).2
        = turn.around.withBackend s.backend)
    (hingested : ∀ answer, turn.call.ingested answer = []) :
    (s.advance checksum turn).IsArchived checksum := by
  obtain ⟨m, hmodels, harchive⟩ := h
  refine ⟨m, ?_, ?_⟩
  · change SlotBackend.Models
      ((turn.around.withBackend s.backend).run (turn.call.procedure checksum)).2.backend m
    rw [hout m hmodels]
    exact hmodels
  · change Archive checksum m (turn.call.ingested _ ++ s.ingested)
    rw [hingested]
    exact harchive

theorem isArchived_advance (h : s.IsArchived checksum) (turn : Turn)
    (hfaithful : turn.call.IsFaithful) : (s.advance checksum turn).IsArchived checksum := by
  obtain ⟨call, around⟩ := turn
  cases call with
  | ingest reserver level data contentType deadline =>
    exact isArchived_ingest h reserver hfaithful contentType deadline around
  | get id deadline =>
    exact isArchived_read h (fun m hm => congrArg Prod.snd (ContentStore.run_get hm id deadline))
      fun _ => rfl
  | record id =>
    exact isArchived_read h (fun m hm => congrArg Prod.snd (ContentStore.run_record hm id))
      fun _ => rfl
  | updateStatus id status deadline =>
    obtain ⟨m, hmodels, harchive⟩ := h
    have hstart : SlotBackend.Models (around.withBackend s.backend).backend m := hmodels
    obtain ⟨m', hsame, hmodels'⟩ := ContentStore.outcome_updateStatus hstart id status deadline
    exact ⟨m', hmodels', harchive.of_sameBlobs hsame⟩
  | matchHash hash deadline =>
    exact isArchived_read h
      (fun m hm => congrArg Prod.snd (ContentStore.run_matchHash hm hash deadline)) fun _ => rfl

theorem isArchived_run (h : s.IsArchived checksum) (turns : List Turn)
    (hfaithful : ∀ turn ∈ turns, turn.call.IsFaithful) :
    (s.run checksum turns).IsArchived checksum := by
  induction turns generalizing s with
  | nil => exact h
  | cons turn turns ih =>
    exact ih (isArchived_advance h turn (hfaithful turn List.mem_cons_self))
      fun turn' hturn' => hfaithful turn' (List.mem_cons_of_mem _ hturn')

/-! ## What the calls answer -/

/-- What is promised of a store of blobs after some calls, if no deadline has passed. -/
structure Lawful (checksum : Bytes → UInt32) (s : Session σ) : Prop where
  /-- What was ingested is read back. -/
  get : ∀ data done, (data, done) ∈ s.ingested →
    ∀ deadline (around : World Unit), deadline.isExpired around.timer = false →
    ∃ found, ((ContentCall.get done.record.id deadline).perform checksum around s.backend).1
        = .ok found ∧
      found.bytes = data ∧ found.fileSize.toNat = data.length
  /-- Equal identifiers mean equal bytes, and the other way round. -/
  id_eq_iff : ∀ data done data' done', (data, done) ∈ s.ingested → (data', done') ∈ s.ingested →
    (done.record.id = done'.record.id ↔ data = data')
  /-- The next ingest finds its content stored exactly if it was ingested, and then it does
  nothing. -/
  deduped_iff : ∀ reserver level data contentType deadline (around : World Unit),
    Faithful level data → deadline.isExpired around.timer = false →
    let out := (ContentCall.ingest reserver level data contentType deadline).perform checksum around
      s.backend
    ((∃ done, out.1 = .ok done ∧ done.deduped = true) ↔ ∃ done, (data, done) ∈ s.ingested) ∧
    ((∃ done, out.1 = .ok done ∧ done.deduped = true) → out.2 = s.backend)
  /-- The blobs of a checksum are the contents ingested under it, each once, in the order of their
  identifiers. -/
  matchHash : ∀ hash deadline (around : World Unit), deadline.isExpired around.timer = false →
    ∃ records, ((ContentCall.matchHash hash deadline).perform checksum around s.backend).1
        = .ok records ∧
      records.Pairwise (fun a b => compare a.id b.id = .lt) ∧
      (∀ record ∈ records, ∃ data done, (data, done) ∈ s.ingested ∧ checksum data = hash ∧
        record.id = done.record.id ∧ record.decompressed = .ok data) ∧
      ∀ data done, (data, done) ∈ s.ingested → checksum data = hash →
        ∃! record, record ∈ records ∧ record.decompressed = .ok data

/-- A record is retrieved with the bytes that it decompresses to. -/
theorem retrieve_eq {record : ContentRecord} {data : Bytes} (h : record.decompressed = .ok data) :
    ContentStore.retrieve record
      = .ok ⟨record.id, data, record.contentType, record.fileSize, record.status⟩ := by
  unfold ContentStore.retrieve
  rw [h]

section

variable {m : MemoryStore} (hmodels : SlotBackend.Models s.backend m)
  (harchive : Archive checksum m s.ingested) {deadline : Deadline} {around : World Unit}
  (htime : deadline.isExpired around.timer = false)

include hmodels harchive htime

theorem perform_get {data : Bytes} {done : Ingested} (hmem : (data, done) ∈ s.ingested) :
    ∃ found, ((ContentCall.get done.record.id deadline).perform checksum around s.backend).1
        = .ok found ∧
      found.bytes = data ∧ found.fileSize.toNat = data.length := by
  obtain ⟨record, hrecord, hdata⟩ := harchive.kept data done hmem
  have hstart : SlotBackend.Models (around.withBackend s.backend).backend m := hmodels
  have hnow : deadline.isExpired (around.withBackend s.backend).timer = false := htime
  refine ⟨⟨record.id, data, record.contentType, record.fileSize, record.status⟩, ?_, rfl,
    ((record.decompressed_eq_ok_iff data).mp hdata).2.symm⟩
  change ((around.withBackend s.backend).run (ContentStore.get done.record.id deadline)).1 = _
  rw [ContentStore.run_get hstart, hrecord]
  simp only [hnow]
  exact retrieve_eq hdata

theorem perform_ingest (reserver : Reserver) {level : Int} {data : Bytes} (contentType : String)
    (hfaithful : Faithful level data) :
    let out := (ContentCall.ingest reserver level data contentType deadline).perform checksum around
      s.backend
    ((∃ done, out.1 = .ok done ∧ done.deduped = true) ↔ ∃ done, (data, done) ∈ s.ingested) ∧
    ((∃ done, out.1 = .ok done ∧ done.deduped = true) → out.2 = s.backend) := by
  intro out
  let store : ContentStore := ⟨reserver, level, checksum⟩
  have hstart : SlotBackend.Models (around.withBackend s.backend).backend m := hmodels
  rcases store.ingest_cases hstart contentType htime hfaithful.decompress_eq hfaithful.length_lt
      hfaithful.compressed_lt
    with ⟨id, existing, hhash, hrecord, hdata, hfound⟩ | ⟨habsent, m', hsettled, _⟩
  · have hout : out = (.ok ⟨existing, true⟩, s.backend) := hfound
    rw [hout, ← harchive.holds_iff]
    exact ⟨⟨fun _ => ⟨id, existing, hhash, hrecord, hdata⟩, fun _ => ⟨_, rfl, rfl⟩⟩, fun _ => rfl⟩
  · have hfresh : ¬ ∃ done, out.1 = .ok done ∧ done.deduped = true := by
      rintro ⟨done, hdone, hdeduped⟩
      change ContentStore.Settled _ _ _ _ _ out.1 m' at hsettled
      rw [hdone] at hsettled
      cases hsettled
      cases hdeduped
    refine ⟨⟨fun hdone => absurd hdone hfresh, fun hingested => ?_⟩,
      fun hdone => absurd hdone hfresh⟩
    obtain ⟨id, record, hhash, hrecord, hdata⟩ := (harchive.holds_iff data).mpr hingested
    exact absurd hdata (habsent id record hhash hrecord)

theorem perform_matchHash (hash : UInt32) :
    ∃ records, ((ContentCall.matchHash hash deadline).perform checksum around s.backend).1
        = .ok records ∧
      records.Pairwise (fun a b => compare a.id b.id = .lt) ∧
      (∀ record ∈ records, ∃ data done, (data, done) ∈ s.ingested ∧ checksum data = hash ∧
        record.id = done.record.id ∧ record.decompressed = .ok data) ∧
      ∀ data done, (data, done) ∈ s.ingested → checksum data = hash →
        ∃! record, record ∈ records ∧ record.decompressed = .ok data := by
  have hstart : SlotBackend.Models (around.withBackend s.backend).backend m := hmodels
  have hnow : deadline.isExpired (around.withBackend s.backend).timer = false := htime
  refine ⟨m.matchHash hash, ?_, harchive.matchHash_pairwise hash,
    fun record hrecord => harchive.of_mem_matchHash hrecord, fun data done hmem hhash => ?_⟩
  · change ((around.withBackend s.backend).run (ContentStore.matchHash hash deadline)).1 = _
    rw [ContentStore.run_matchHash hstart]
    simp only [hnow]
    rfl
  · rw [← hhash]
    exact harchive.existsUnique_mem_matchHash hmem

end

theorem IsArchived.lawful (h : s.IsArchived checksum) : s.Lawful checksum := by
  obtain ⟨m, hmodels, harchive⟩ := h
  constructor
  · intro data done hmem deadline around htime
    exact perform_get hmodels harchive htime hmem
  · intro data done data' done' hmem hmem'
    exact harchive.id_eq_iff hmem hmem'
  · intro reserver level data contentType deadline around hfaithful htime
    exact perform_ingest hmodels harchive htime reserver contentType hfaithful
  · intro hash deadline around htime
    exact perform_matchHash hmodels harchive htime hash

end Session

end

/-- Over either backend, with any codec and any checksum, the store of blobs is lawful after any
calls that ingest what the codec gives back. -/
theorem content_lawful [Codec] (checksum : Bytes → UInt32) (turns : List Turn)
    (hfaithful : ∀ turn ∈ turns, turn.call.IsFaithful) :
    (Session.run checksum ⟨MemoryStore.empty, []⟩ turns).Lawful checksum ∧
    ∀ config s, ChunkedStore.create config = .ok s →
      (Session.run checksum ⟨s, []⟩ turns).Lawful checksum := by
  refine ⟨?_, fun config s hcreate => ?_⟩
  · refine (Session.isArchived_run ?_ turns hfaithful).lawful
    exact ⟨.empty, rfl, .empty⟩
  · obtain ⟨rfl, husable⟩ := ChunkedStore.usable_of_create hcreate
    refine (Session.isArchived_run ?_ turns hfaithful).lawful
    exact ⟨.empty, ⟨husable, _, ChunkedStore.represents_empty config⟩, .empty⟩

/-- Two contents of one checksum are ingested, and the first of them again; over a chunked store the
first ingest succeeds as well. -/
theorem content_lawful_of_collision :
    let _ : Codec := Compression.codec
    let checksum : Bytes → UInt32 := fun _ => 7
    let around : World Unit := {
      backend := (), manual := .still 0, system := .still 0, timer := 0, tokens := ⟨fun _ => 1, 0⟩,
      stamps := ⟨fun _ => 9, 0⟩, stampBytes := ⟨fun _ => 0, 0⟩, jitters := ⟨fun _ => 0, 0⟩,
      today := default }
    let ingest (data : Bytes) : Turn :=
      ⟨.ingest ⟨.standard, .manual⟩ 3 data "text/plain" .never, around⟩
    let turns := [ingest [1, 2, 3], ingest [4, 4, 4], ingest [1, 2, 3]]
    let s := Session.run checksum ⟨MemoryStore.empty, []⟩ turns
    let config : ChunkedConfig := ⟨8, 128, 2⟩
    let chunked : Session ChunkedStore := ⟨.empty config, []⟩
    (∀ turn ∈ turns, turn.call.IsFaithful) ∧
      s.ingested.map (fun (data, done) => (data, done.record.id, done.deduped))
        = [([1, 2, 3], ⟨7, 9⟩, true), ([4, 4, 4], ⟨7, 10⟩, false), ([1, 2, 3], ⟨7, 9⟩, false)] ∧
      s.Lawful checksum ∧
      ChunkedStore.create config = .ok chunked.backend ∧
      (chunked.run checksum [ingest [1, 2, 3]]).ingested.map (·.2.record.id) = [⟨7, 9⟩] ∧
      (chunked.run checksum turns).Lawful checksum := by
  intro _ checksum around ingest turns s config chunked
  have hfirst : Faithful 3 [1, 2, 3] := ⟨by decide +kernel, by decide, by decide +kernel⟩
  have hsecond : Faithful 3 [4, 4, 4] := ⟨by decide +kernel, by decide, by decide +kernel⟩
  have hfaithful : ∀ turn ∈ turns, turn.call.IsFaithful := by
    intro turn hturn
    simp only [turns, List.mem_cons, List.not_mem_nil, or_false] at hturn
    rcases hturn with rfl | rfl | rfl
    · exact hfirst
    · exact hsecond
    · exact hfirst
  have hcreate : ChunkedStore.create config = .ok chunked.backend := rfl
  obtain ⟨hmemory, hchunked⟩ := content_lawful checksum turns hfaithful
  exact ⟨hfaithful, by decide +kernel, hmemory, hcreate, by decide +kernel,
    hchunked config chunked.backend hcreate⟩

end ContentVault
