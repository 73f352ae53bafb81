import ContentVault.Proofs.Content.RoundTrip
import ContentVault.Proofs.History.Keyed
import ContentVault.Proofs.Store.Matching
import ContentVault.Proofs.Vault.Leasing
set_option autoImplicit false

/-!
# Finding stored content

Whatever stands in a backend, an ingest in time finds its content stored exactly if a record of
its checksum decompresses to it, and then answers with the first such record.  A reservation
commits nothing, so the second look finds no more than the first.
-/

namespace ContentVault

/-! ## Reads and slots -/

/-- Each record that can be read bears the identifier under which it is read. -/
def BearsIds {σ : Type} [Backend σ] (b : σ) : Prop :=
  ∀ id record, recordAt? b id = some record → record.id = id

/-- A backend that reads its committed slots, and in their order those of a checksum. -/
class ReadsSlots (σ : Type) [Backend σ] [ShowsSlots σ] : Prop where
  recordAt?_iff_slot (b : σ) (id : StoreId) (record : ContentRecord) :
    recordAt? b id = some record ↔ (slotsOf b).blob id = .ok (some (.committed record))
  exists_matchesHash {b : σ} (hids : BearsIds b) (hash : UInt32) :
    ∃ records, Backend.matchHash hash b = (.ok records, b) ∧ MatchesHash b hash records

namespace MemoryStore

theorem recordAt?_eq (m : MemoryStore) (id : StoreId) : recordAt? m id = m.stores.record? id := rfl

theorem Keyed.bearsIds {m : MemoryStore} (h : m.Keyed) : BearsIds m := h

instance : ReadsSlots MemoryStore where
  recordAt?_iff_slot m id record := by
    rw [recordAt?_eq]
    constructor
    · exact fun h => congrArg Except.ok (SlotMap.record?_eq_some h)
    · exact fun h => SlotMap.record?_of_get? (Except.ok.inj h)
  exists_matchesHash {m} hids hash :=
    ⟨m.matchHash hash, rfl, matchHash_pairwise hids hash, m.mem_matchHash_iff hash⟩

end MemoryStore

namespace ChunkedStore

theorem bearsIds (s : ChunkedStore) : BearsIds s := fun _ _ => id_of_recordAt?

instance : ReadsSlots ChunkedStore where
  recordAt?_iff_slot s id record := by
    rw [ChunkedStore.recordAt?_eq, blob_slotsOf, storeSlot, meta?]
    cases s.stores.find id with
    | none => simp
    | some doc =>
      obtain ⟨_, lease?, record?⟩ := doc
      cases record? with
      | none => cases lease? <;> simp [Entry.slot?]
      | some m =>
        simp only [Option.bind_some]
        cases readRecord id m (s.storedPieces id m.writer) with
        | error e => simp [Except.toOption, Except.map]
        | ok found => simp [Except.toOption, Except.map, Entry.slot?]
  exists_matchesHash _ hash := ⟨_, matchHash_eq_filterMap _ hash, matchesHash_filterMap _ hash⟩

end ChunkedStore

namespace ContentStore

variable [Codec]

/-! ## The search -/

/-- The record has the size of the content and decompresses to it. -/
def decompressesTo (data : Bytes) (record : ContentRecord) : Bool :=
  record.fileSize == UInt64.ofNat data.length
    && match record.decompressed with
      | .ok bytes => bytes == data
      | .error _ => false

/-- Looks for a stored blob with the same content by decompressing each that has its size. -/
def findDecompressing (hash : UInt32) (data : Bytes) :
    Procedure (Except VaultError (Option ContentRecord)) := do
  return match ← ask (.matchHash hash) with
    | .error e => .error (.store e)
    | .ok records => .ok (records.find? (decompressesTo data))

theorem decompressesTo_iff {data : Bytes} (hlength : data.length < UInt64.size)
    (record : ContentRecord) :
    decompressesTo data record = true ↔ record.decompressed = .ok data := by
  unfold decompressesTo
  rw [Bool.and_eq_true, beq_iff_eq]
  constructor
  · rintro ⟨_, hbytes⟩
    exact (record.decompressed_beq_iff data).mp hbytes
  · intro hdecompressed
    have hsize := ((record.decompressed_eq_ok_iff data).mp hdecompressed).2
    rw [← UInt64.toNat_inj, UInt64.toNat_ofNat', Nat.mod_eq_of_lt hlength]
    exact ⟨hsize.symm, (record.decompressed_beq_iff data).mpr hdecompressed⟩

/-- The shorter way of comparing compressed bytes changes nothing. -/
theorem findDuplicate_eq {data compressed : Bytes}
    (hround : Codec.decompress compressed = .ok data) (hlength : data.length < UInt64.size)
    (hash : UInt32) : findDuplicate hash data compressed = findDecompressing hash data := by
  have hsame : holds data compressed = decompressesTo data := by
    funext record
    rw [Bool.eq_iff_iff, holds_iff record hround hlength, decompressesTo_iff hlength]
  rw [findDuplicate, hsame]
  rfl

/-! ## What an ingest answers -/

/-- The record is the first of those that decompress to the content. -/
structure FirstHolder (records : List ContentRecord) (data : Bytes) (record : ContentRecord) :
    Prop where
  mem : record ∈ records
  decompressed : record.decompressed = .ok data
  first : ∀ other ∈ records, other.decompressed = .ok data → other = record ∨ record.Before other

/-- The answer does not say that the content was stored already. -/
def SaysNew (answer : Except VaultError Ingested) : Prop :=
  ∀ done, answer = .ok done → done.deduped = false

/-- An ingest says that the content was stored exactly if one of the records decompresses to it;
then its answer is the first such record, and nothing is written. -/
structure FindsStored {σ : Type} (before : σ) (records : List ContentRecord) (data : Bytes)
    (answer : Except VaultError Ingested) (after : σ) : Prop where
  deduped_iff : (∃ done, answer = .ok done ∧ done.deduped = true) ↔
    ∃ record ∈ records, record.decompressed = .ok data
  first : ∀ done, answer = .ok done → done.deduped = true → FirstHolder records data done.record
  unchanged : ∀ done, answer = .ok done → done.deduped = true → after = before

section

variable {σ : Type} {records : List ContentRecord} {data : Bytes}

theorem FindsStored.of_some {p : ContentRecord → Bool}
    (hordered : records.Pairwise ContentRecord.Before)
    (hp : ∀ record, p record = true ↔ record.decompressed = .ok data) {existing : ContentRecord}
    (hfind : records.find? p = some existing) (b : σ) :
    FindsStored b records data (.ok ⟨existing, true⟩) b := by
  have hmem := List.mem_of_find?_eq_some hfind
  have hdata := (hp existing).mp (List.find?_some hfind)
  refine ⟨iff_of_true ⟨_, rfl, rfl⟩ ⟨existing, hmem, hdata⟩, fun done hdone _ => ?_,
    fun _ _ _ => rfl⟩
  cases hdone
  exact ⟨hmem, hdata, fun other hother hheld =>
    ContentRecord.before_of_find? hordered hfind hother ((hp other).mpr hheld)⟩

theorem FindsStored.of_none (hnone : ∀ record ∈ records, record.decompressed ≠ .ok data)
    {answer : Except VaultError Ingested} (hnew : SaysNew answer) (b after : σ) :
    FindsStored b records data answer after := by
  have hnot : ∀ done, answer = .ok done → done.deduped ≠ true := by
    intro done hdone hdeduped
    rw [hnew done hdone] at hdeduped
    cases hdeduped
  refine ⟨iff_of_false ?_ ?_, fun done hdone hdeduped => absurd hdeduped (hnot done hdone),
    fun done hdone hdeduped => absurd hdeduped (hnot done hdone)⟩
  · rintro ⟨done, hdone, hdeduped⟩
    exact hnot done hdone hdeduped
  · rintro ⟨record, hmem, hdata⟩
    exact hnone record hmem hdata

end

end ContentStore

/-! ## The steps of an ingest -/

section

variable {σ : Type} [Backend σ] {kind : World Unit → Prop} {b b' : σ}

/-- A reservation that is granted leaves what can be read. -/
theorem Granted.recordAt?_iff [ShowsSlots σ] [ClaimsSlots StoreId ContentRecord σ] [ReadsSlots σ]
    {s : Reserver} {r : Reservation StoreId} (h : Granted kind s b r b') (id : StoreId)
    (record : ContentRecord) : recordAt? b' id = some record ↔ recordAt? b id = some record := by
  obtain ⟨around, _, _, hclaim⟩ := h
  rcases ClaimsSlots.claim_cases b r.id r.lease (around.clock s.clock).read.1
    with ⟨e, _, hout⟩ | ⟨_, _, hout⟩ | ⟨_, hopen, _, hslots⟩
  · cases hclaim.symm.trans hout
  · cases hclaim.symm.trans hout
  · rw [hclaim] at hslots
    rw [ReadsSlots.recordAt?_iff_slot, ReadsSlots.recordAt?_iff_slot, hslots]
    exact (SlotKind.sameCommitted_set hopen).blob id record

namespace ContentStore

theorem saysNew_error (e : VaultError) : SaysNew (.error e) := fun _ h => (by cases h)

theorem saysNew_abandonWith (r : Reservation StoreId) (e : VaultError) (b : σ) :
    Ensures kind (fun answer _ => SaysNew answer) (abandonWith r (.error e)) b :=
  fun _ _ => saysNew_error e

theorem saysNew_commitFresh (s : ContentStore) (r : Reservation StoreId) (data compressed : Bytes)
    (contentType : String) (b : σ) :
    Ensures kind (fun answer _ => SaysNew answer) (s.commitFresh r data compressed contentType)
      b := by
  unfold commitFresh
  refine Ensures.bind fun around _ => ?_
  let record : ContentRecord := .fresh r.id compressed contentType (UInt64.ofNat data.length)
  change Ensures kind _ _
    (World.answer (.commitStore s.reserver.clock r record) (around.withBackend b)).2.backend
  generalize World.answer (.commitStore s.reserver.clock r record) (around.withBackend b) = out
  obtain ⟨e | _, w⟩ := out
  · exact saysNew_abandonWith r (.store e) w.backend
  · intro done hdone
    cases hdone
    rfl

variable [Codec] {records : List ContentRecord} {data compressed : Bytes} {contentType : String}

/-- Content that is not found once more is new. -/
theorem saysNew_ingestReserved (s : ContentStore) {hash : UInt32}
    (hread : Backend.matchHash hash b = (.ok records, b))
    (hnone : records.find? (holds data compressed) = none) (r : Reservation StoreId)
    (deadline : Deadline) :
    Ensures kind (fun answer _ => SaysNew answer)
      (s.ingestReserved r hash data compressed contentType deadline) b := by
  unfold ingestReserved
  refine Ensures.bind ((ensures_findDuplicate_of_read hread data compressed).weaken ?_)
  rintro found after ⟨hafter, hfound⟩
  rw [hnone] at hfound
  subst hfound
  refine Ensures.bind (((isLocal_passed deadline).ensures kind after).weaken ?_)
  intro passed after _
  cases passed with
  | true => exact saysNew_abandonWith r _ after
  | false => exact s.saysNew_commitFresh r data compressed contentType after

/-- Content that is found is answered, and nothing is written. -/
theorem ensures_ingestExclusive_of_some (s : ContentStore) {candidate : StoreId}
    (hread : Backend.matchHash candidate.hash b = (.ok records, b)) {existing : ContentRecord}
    (hsome : records.find? (holds data compressed) = some existing) (deadline : Deadline) :
    Ensures kind (fun answer after => answer = .ok ⟨existing, true⟩ ∧ after = b)
      (s.ingestExclusive candidate data compressed contentType deadline) b := by
  unfold ingestExclusive
  refine Ensures.bind ((ensures_findDuplicate_of_read hread data compressed).weaken ?_)
  rintro found after ⟨hafter, hfound⟩
  rw [hsome] at hfound
  subst hfound
  exact ⟨rfl, hafter⟩

variable [ShowsSlots σ] [ClaimsSlots StoreId ContentRecord σ] [ReadsSlots σ]

/-- Content that is not found is new, whatever is reserved for it. -/
theorem ensures_ingestExclusive_of_none (s : ContentStore) {candidate : StoreId}
    (hids : BearsIds b) (hread : Backend.matchHash candidate.hash b = (.ok records, b))
    (hmatches : MatchesHash b candidate.hash records)
    (hnone : records.find? (holds data compressed) = none) (deadline : Deadline) :
    Ensures kind (fun answer _ => SaysNew answer)
      (s.ingestExclusive candidate data compressed contentType deadline) b := by
  unfold ingestExclusive
  refine Ensures.bind ((ensures_findDuplicate_of_read hread data compressed).weaken ?_)
  rintro found after ⟨hafter, hfound⟩
  rw [hnone] at hfound
  subst hfound
  rw [hafter]
  have hreserve : Ensures kind _ (s.reserver.reserve candidate deadline) b :=
    s.reserver.ensures_reserve (P := fun _ => True) (fun _ _ _ => trivial) trivial deadline b
  refine Ensures.bind (hreserve.weaken ?_)
  rintro (e | r) b' hgranted
  · exact saysNew_error (.store e)
  · have hsame := hgranted.2.recordAt?_iff
    have hids' : BearsIds b' := fun id record hrecord =>
      hids id record ((hsame id record).mp hrecord)
    obtain ⟨records', hread', hmatches'⟩ := ReadsSlots.exists_matchesHash hids' candidate.hash
    have heq := hmatches.congr hmatches' hsame
    subst heq
    exact s.saysNew_ingestReserved hread' hnone r deadline

theorem exists_findsStored (s : ContentStore)
    (hround : Codec.decompress (Codec.compress data s.compressionLevel) = .ok data)
    (hlength : data.length < UInt64.size) (contentType : String) {deadline : Deadline}
    {around : Nat → World Unit}
    (htime : ∀ n < 3, deadline.isExpired (around n).timer = false) (hids : BearsIds b) :
    ∃ records, Backend.matchHash (s.checksum data) b = (.ok records, b) ∧
      FindsStored b records data (amid around (s.ingest data contentType deadline) b).1
        (amid around (s.ingest data contentType deadline) b).2 := by
  obtain ⟨records, hread, hmatches⟩ := ReadsSlots.exists_matchesHash hids (s.checksum data)
  have hholds := fun record : ContentRecord => holds_iff record hround hlength
  refine ⟨records, hread, s.amid_ingest htime fun stamp => ?_⟩
  cases hfind : records.find? (holds data (Codec.compress data s.compressionLevel)) with
  | some existing =>
    refine (s.ensures_ingestExclusive_of_some hread hfind deadline).weaken ?_
    rintro answer after ⟨rfl, rfl⟩
    exact .of_some hmatches.ordered hholds hfind after
  | none =>
    refine (s.ensures_ingestExclusive_of_none hids hread hmatches hfind deadline).weaken ?_
    intro answer after hnew
    refine .of_none (fun record hmem hdata => ?_) hnew b after
    exact List.find?_eq_none.mp hfind record hmem ((hholds record).mpr hdata)

end ContentStore

end

/-- With any codec, whatever is committed in a backend, an ingest that takes its lock in time says
that its content was stored exactly if one of the records of the checksum decompresses to it; then
it answers with the first of these and writes nothing.  That equal compressed bytes are not
decompressed makes no difference to what is found. -/
theorem stored_content_is_found [Codec] (s : ContentStore) {data : Bytes}
    (hround : Codec.decompress (Codec.compress data s.compressionLevel) = .ok data)
    (hlength : data.length < UInt64.size) (contentType : String) (deadline : Deadline)
    (around : Nat → World Unit)
    (htime : ∀ n < 3, deadline.isExpired (around n).timer = false) :
    (∀ m : MemoryStore, m.Keyed →
      ∃ records, Backend.matchHash (s.checksum data) m = (.ok records, m) ∧
        let out := amid around (s.ingest data contentType deadline) m
        ContentStore.FindsStored m records data out.1 out.2) ∧
    (∀ c : ChunkedStore,
      ∃ records, Backend.matchHash (s.checksum data) c = (.ok records, c) ∧
        let out := amid around (s.ingest data contentType deadline) c
        ContentStore.FindsStored c records data out.1 out.2) ∧
    ∀ hash compressed, Codec.decompress compressed = .ok data →
      ContentStore.findDuplicate hash data compressed
        = ContentStore.findDecompressing hash data :=
  ⟨fun _ hkeyed => s.exists_findsStored hround hlength contentType htime hkeyed.bearsIds,
    fun c => s.exists_findsStored hround hlength contentType htime c.bearsIds,
    fun hash _ hcompressed => ContentStore.findDuplicate_eq hcompressed hlength hash⟩

/-- Of three blobs of the checksum the first cannot be decompressed and the second has the bytes
that the ingest would write, but not the size; the third is compressed otherwise, and is found. -/
theorem stored_content_is_found_past_corruption :
    let _ : Codec := Compression.codec
    let data : Bytes := [5, 5, 5, 5]
    let s : ContentStore := ⟨⟨.standard, .manual⟩, 3, fun _ => 7⟩
    let around : World Unit := {
      backend := (), manual := .still 0, system := .still 0, timer := 0, tokens := ⟨fun _ => 1, 0⟩,
      stamps := ⟨fun _ => 9, 0⟩, stampBytes := ⟨fun _ => 0, 0⟩, jitters := ⟨fun _ => 0, 0⟩,
      today := default }
    let corrupt : ContentRecord := .fresh ⟨7, 0⟩ [1, 2, 3] "text/plain" 4
    let missized : ContentRecord := .fresh ⟨7, 1⟩ (Codec.compress data 3) "text/plain" 9
    let holder : ContentRecord := .fresh ⟨7, 2⟩ (Codec.compress data 0) "text/plain" 4
    let plant (record : ContentRecord) (h : record.content.length < UInt64.size) :
        List ((α : Type) × Deed α) :=
      [⟨_, .standing (.claimStore record.id ⟨1, 100⟩ 5)⟩,
       ⟨_, .commitStore ⟨record.id, ⟨1, 100⟩⟩ record h (.still 5) []⟩]
    let deeds := plant corrupt (by decide) ++ plant missized (by decide +kernel)
      ++ plant holder (by decide +kernel)
    let m := ((Chronicle.start MemoryStore.empty).run deeds).backend
    let out := amid (fun _ => around) (s.ingest data "text/plain" .never) m
    Codec.decompress (Codec.compress data 3) = .ok data ∧ data.length < UInt64.size ∧ m.Keyed ∧
      Backend.matchHash 7 m = (.ok [corrupt, missized, holder], m) ∧
      corrupt.decompressed ≠ .ok data ∧ missized.decompressed ≠ .ok data ∧
      holder.content ≠ Codec.compress data 3 ∧
      out.1 = .ok ⟨holder, true⟩ ∧ out.2 = m := by
  intro _ data s around corrupt missized holder plant deeds m out
  have hround : Codec.decompress (Codec.compress data 3) = .ok data :=
    Compression.decompress_compress data 3
  have hlength : data.length < UInt64.size := by decide
  have hkeyed : m.Keyed := by
    obtain ⟨n, hmodels, hkeyed⟩ := Chronicle.exists_keyed
      (c := Chronicle.start MemoryStore.empty) rfl MemoryStore.Keyed.empty deeds
    rw [show m = n from hmodels]
    exact hkeyed
  have hread : Backend.matchHash 7 m = (.ok [corrupt, missized, holder], m) :=
    Prod.ext (by decide +kernel) rfl
  have hcorrupt : corrupt.decompressed ≠ .ok data := by decide +kernel
  have hmissized : missized.decompressed ≠ .ok data := by decide +kernel
  have hholder : holder.decompressed = .ok data := by decide +kernel
  obtain ⟨hmemory, _⟩ := stored_content_is_found s hround hlength "text/plain" .never
    (fun _ => around) fun _ _ => rfl
  obtain ⟨records, hrecords, hfound⟩ := hmemory m hkeyed
  have hlist : records = [corrupt, missized, holder] := by
    have hanswer := congrArg Prod.fst (hrecords.symm.trans hread)
    exact Except.ok.inj hanswer
  subst hlist
  obtain ⟨⟨record, deduped⟩, hdone, hdeduped⟩ := hfound.deduped_iff.mpr
    ⟨holder, by simp, hholder⟩
  replace hdeduped : deduped = true := hdeduped
  subst hdeduped
  have hfirst := hfound.first _ hdone rfl
  refine ⟨hround, hlength, hkeyed, hread, hcorrupt, hmissized, by decide +kernel, ?_,
    hfound.unchanged _ hdone rfl⟩
  obtain ⟨hmem, hdata, _⟩ := hfirst
  rcases List.mem_cons.mp hmem with rfl | hmem
  · exact absurd hdata hcorrupt
  · rcases List.mem_cons.mp hmem with rfl | hmem
    · exact absurd hdata hmissized
    · rw [List.mem_singleton] at hmem
      subst hmem
      exact hdone

end ContentVault
