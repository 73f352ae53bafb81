import ContentVault.Proofs.Concurrent.Shelf
import ContentVault.Proofs.Vault.Session
set_option autoImplicit false

/-!
# Ingests are careful

An ingest commits under its lock, and only after it looked at the blobs of its checksum and did
not find the content.  Nobody adds such a blob before it commits, since that takes the same lock;
so the content is committed once.
-/

namespace ContentVault

open ContentStore (stripe)

variable [Codec]

namespace Shelf

variable {ι : Type} {checksum : Bytes → UInt32}

/-- What an ingest promises of its answer: the content is committed under the identifier that it
gives, and if it was not found there, the ingest committed it itself. -/
structure Delivers (data : Bytes) (author : ι) (x : Shelf ι) (done : Ingested) : Prop where
  stored : ∃ record, x.record? done.record.id = some record ∧ record.decompressed = .ok data
  own : done.deduped = false → x.author? done.record.id = some author

/-- What was delivered stays. -/
theorem Delivers.grows {data : Bytes} {author : ι} {x y : Shelf ι} {done : Ingested}
    (h : x.Delivers data author done) (hxy : Grows x y) : y.Delivers data author done := by
  obtain ⟨record, hrecord, hdata⟩ := h.stored
  have hsome : (x.record? done.record.id).isSome := by
    rw [hrecord]
    rfl
  refine ⟨⟨record, hxy.record?_eq hrecord, hdata⟩, fun hfresh => ?_⟩
  rw [(hxy _ hsome).2]
  exact h.own hfresh

/-- Content that was found is delivered. -/
theorem Sound.delivers {x : Shelf ι} (h : x.Sound checksum) {data : Bytes} {id : StoreId}
    {existing : ContentRecord} (hrecord : x.record? id = some existing)
    (hdata : existing.decompressed = .ok data) (author : ι) :
    x.Delivers data author ⟨existing, true⟩ := by
  have hid : existing.id = id := (h.known id existing hrecord).1
  refine ⟨⟨existing, hid ▸ hrecord, hdata⟩, fun hfresh => ?_⟩
  cases hfresh

/-- Who holds the lock of content that is lacking still lacks it later. -/
theorem Lacks.rely {x y : Shelf ι} {data : Bytes} (h : x.Lacks data) (hy : y.Sound checksum)
    (hxy : Rely (stripe (checksum data)) true x y) : y.Lacks data := by
  intro id record hrecord hdata
  obtain ⟨_, data', hdata', hhash⟩ := hy.known id record hrecord
  cases hdata'.symm.trans hdata
  have hsame : y.record? id = x.record? id := by
    apply hxy.still rfl
    rw [hhash]
  exact h id record (hsame ▸ hrecord) hdata

/-- What is not found among the blobs of its checksum is lacking. -/
theorem Sound.lacks {x : Shelf ι} (h : x.Sound checksum) {data : Bytes}
    {records : List ContentRecord} (hrecords : ∀ record, record ∈ records ↔
      ∃ id, id.hash = checksum data ∧ x.record? id = some record) {p : ContentRecord → Bool}
    (hp : ∀ record, record.decompressed = .ok data → p record = true)
    (hnone : records.find? p = none) : x.Lacks data := by
  intro id record hrecord hdata
  obtain ⟨_, data', hdata', hhash⟩ := h.known id record hrecord
  cases hdata'.symm.trans hdata
  have hmem : record ∈ records := (hrecords record).mpr ⟨id, hhash, hrecord⟩
  exact List.find?_eq_none.mp hnone record hmem (hp record hdata)

end Shelf

namespace Careful

variable {ι : Type} {checksum : Bytes → UInt32} {author : ι} {lock : Nat} {inside : Bool}
  {x : Shelf ι}

/-! ## Reservations -/

/-- Pauses do no harm. -/
theorem backoff {α : Type} {post : α → Bool → Shelf ι → Prop} (policy : ReservationPolicy)
    (count : Nat) {p : Procedure α} (h : Careful checksum author lock post inside x p) :
    Careful checksum author lock post inside x (policy.backoff count >>= fun _ => p) := by
  unfold ReservationPolicy.backoff
  split
  · exact h
  · split
    · exact .quiet _ trivial fun _ => h
    · exact .quiet _ trivial fun _ => .quiet _ trivial fun _ => h

/-- A reservation that succeeds is one of the candidate's checksum. -/
theorem attempts (r : Reserver) (candidate : StoreId) (deadline : Deadline) {hash : UInt32}
    (remaining count : Nat) (id : StoreId) (hid : id.hash = hash) :
    Careful checksum author lock
      (fun answer inside' _ => inside' = inside ∧
        ∀ reservation, answer = .ok reservation → reservation.id.hash = hash) inside x
      (r.attempts candidate deadline remaining count id) := by
  have hfailed : ∀ e : StoreError, Careful checksum author lock
      (fun answer inside' _ => inside' = inside ∧
        ∀ reservation, answer = .ok reservation → reservation.id.hash = hash) inside x
      (.done (.error e) : Procedure (Except StoreError (Reservation StoreId))) := by
    intro e
    refine .done fun y _ _ => ⟨rfl, fun reservation h => ?_⟩
    cases h
  induction remaining generalizing count id with
  | zero => exact hfailed _
  | succ remaining ih =>
    rw [Reserver.attempts]
    refine .quiet .readTimer trivial fun timer => ?_
    change Careful _ _ _ _ _ _ (if deadline.isExpired timer then _ else _)
    split
    · exact hfailed _
    · refine .quiet (.readClock r.clock) trivial fun now => ?_
      refine .quiet .leaseToken trivial fun token => ?_
      refine .quiet (.claimStore id ⟨token, _⟩ now) trivial fun answer => ?_
      rcases answer with e | _ | _
      · exact hfailed e
      · exact (ih (count + 1) id.next hid).backoff r.policy count
      · refine .done fun y _ _ => ⟨rfl, fun reservation h => ?_⟩
        cases h
        exact hid

/-! ## Ingests -/

/-- An ingest under its lock ends with an answer that it can stand by. -/
def Concluded (data : Bytes) (author : ι) (answer : Except VaultError Ingested) (inside : Bool)
    (x : Shelf ι) : Prop :=
  inside = true ∧ ∀ done, answer = .ok done → x.Delivers data author done

theorem concluded_error {data : Bytes} (e : VaultError) :
    Concluded data author (.error e) true x := by
  refine ⟨rfl, fun done h => ?_⟩
  cases h

theorem concluded_ok {data : Bytes} {done : Ingested} (h : x.Delivers data author done) :
    Concluded data author (.ok done) true x := by
  refine ⟨rfl, fun done' h' => ?_⟩
  cases h'
  exact h

/-- Giving a reservation up does no harm. -/
theorem abandonWith {α : Type} {post : Except VaultError α → Bool → Shelf ι → Prop}
    (r : Reservation StoreId) {answer : Except VaultError α}
    (h : ∀ y, y.Sound checksum → Shelf.Rely lock inside x y → post answer inside y) :
    Careful checksum author lock post inside x (ContentStore.abandonWith r answer) :=
  .quiet (.releaseStore r) trivial fun _ => .done h

section

variable {s : ContentStore} {data : Bytes} (contentType : String)
  (hfaithful : Faithful s.compressionLevel data) {r : Reservation StoreId}
include hfaithful

/-- Content that is lacking is committed, and then it is delivered. -/
theorem commitFresh (hhash : r.id.hash = checksum data) (hlacks : x.Lacks data) :
    Careful checksum author (stripe (checksum data)) (Concluded data author) true x
      (s.commitFresh r data (Codec.compress data s.compressionLevel) contentType) := by
  let record : ContentRecord := .fresh r.id (Codec.compress data s.compressionLevel)
    contentType (UInt64.ofNat data.length)
  have hdata : record.decompressed = .ok data :=
    ContentRecord.decompressed_fresh hfaithful.decompress_eq hfaithful.length_lt
  have hlock : stripe record.id.hash = stripe (checksum data) := by
    change stripe r.id.hash = _
    rw [hhash]
  change Careful _ _ _ _ _ _ (.ask (.commitStore s.reserver.clock r record) _)
  refine .commit hfaithful.compressed_lt hlock (fun y hy hxy e => ?_)
    (fun y hy hxy _ => hy.add hdata hhash (hlacks.rely hy hxy) author) fun y hy hxy hnone => ?_
  · exact abandonWith r fun z _ _ => concluded_error _
  · refine .done fun z hz hyz => concluded_ok ?_
    have hself : (y.add record author).record? record.id = some record := by
      rw [Shelf.record?_add, if_pos rfl]
    have hdelivers : (y.add record author).Delivers data author ⟨record, false⟩ :=
      ⟨⟨record, hself, hdata⟩, fun _ => y.author?_add_self record author⟩
    exact hdelivers.grows hyz.grows

/-- Content is looked for among the blobs of its checksum: it is found, or lacking. -/
theorem findDuplicate {β : Type} {post : β → Bool → Shelf ι → Prop}
    {f : Except VaultError (Option ContentRecord) → Procedure β}
    (hfound : ∀ y existing, y.Sound checksum → Shelf.Rely lock inside x y →
      y.Delivers data author ⟨existing, true⟩ →
      Careful checksum author lock post inside y (f (.ok (some existing))))
    (hlacks : ∀ y, y.Sound checksum → Shelf.Rely lock inside x y → y.Lacks data →
      Careful checksum author lock post inside y (f (.ok none))) :
    Careful checksum author lock post inside x
      (ContentStore.findDuplicate (checksum data) data
        (Codec.compress data s.compressionLevel) >>= f) := by
  refine .matchHash fun y hy hxy records hrecords => ?_
  have hholds := fun record : ContentRecord =>
    ContentStore.holds_iff record hfaithful.decompress_eq hfaithful.length_lt
  change Careful _ _ _ _ _ _ (f (.ok (records.find? (ContentStore.holds data _))))
  cases hfind : records.find? (ContentStore.holds data
      (Codec.compress data s.compressionLevel)) with
  | none => exact hlacks y hy hxy (hy.lacks hrecords (fun record => (hholds record).mpr) hfind)
  | some existing =>
    obtain ⟨id, _, hrecord⟩ := (hrecords existing).mp (List.mem_of_find?_eq_some hfind)
    have hdata := (hholds existing).mp (List.find?_some hfind)
    exact hfound y existing hy hxy (hy.delivers hrecord hdata author)

/-- Under a reservation, content is looked for once more, and committed if it is lacking. -/
theorem ingestReserved (hhash : r.id.hash = checksum data) (deadline : Deadline) :
    Careful checksum author (stripe (checksum data)) (Concluded data author) true x
      (s.ingestReserved r (checksum data) data (Codec.compress data s.compressionLevel)
        contentType deadline) := by
  unfold ContentStore.ingestReserved
  refine findDuplicate hfaithful (fun y existing hy hxy hfound => ?_) fun y hy hxy hlacks => ?_
  · exact abandonWith r fun z _ hyz => concluded_ok (hfound.grows hyz.grows)
  · refine .quiet .readTimer trivial fun timer => ?_
    change Careful _ _ _ _ _ _ (if deadline.isExpired timer then _ else _)
    split
    · exact abandonWith r fun z _ _ => concluded_error _
    · exact commitFresh contentType hfaithful hhash hlacks

theorem ingestExclusive (stamp : UInt16) (deadline : Deadline) :
    Careful checksum author (stripe (checksum data)) (Concluded data author) true x
      (s.ingestExclusive ⟨checksum data, stamp⟩ data
        (Codec.compress data s.compressionLevel) contentType deadline) := by
  unfold ContentStore.ingestExclusive
  refine findDuplicate hfaithful (fun y existing hy hxy hfound => ?_) fun y hy hxy _ => ?_
  · exact .done fun z _ hyz => concluded_ok (hfound.grows hyz.grows)
  · refine bind hy ((attempts s.reserver _ deadline _ 0 _ rfl).weaken ?_)
    rintro answer inside z hz ⟨rfl, hreserved⟩
    cases answer with
    | error e => exact .done fun _ _ _ => concluded_error _
    | ok reservation =>
      exact ingestReserved contentType hfaithful (hreserved reservation rfl) deadline

/-- An ingest takes the lock of its stripe, and gives it back however it ends. -/
theorem ingest (hchecksum : s.checksum = checksum) (deadline : Deadline) :
    Careful checksum author (stripe (checksum data))
      (fun answer inside y => inside = false ∧
        ∀ done, answer = .ok done → y.Delivers data author done) false x
      (s.ingest data contentType deadline) := by
  subst hchecksum
  have hlate : Careful s.checksum author (stripe (s.checksum data))
      (fun answer inside y => inside = false ∧
        ∀ done, answer = .ok done → y.Delivers data author done) false x
      (.done (.error (.store .timeout)) : Procedure (Except VaultError Ingested)) := by
    refine .done fun y _ _ => ⟨rfl, fun done h => ?_⟩
    cases h
  unfold ContentStore.ingest
  refine .quiet .readTimer trivial fun timer => ?_
  change Careful _ _ _ _ _ _ (if deadline.isExpired timer then _ else _)
  split
  · exact hlate
  · refine .quiet .seedStamp trivial fun stamp => .quiet .readTimer trivial fun timer' => ?_
    change Careful _ _ _ _ _ _ (if deadline.isExpired timer' then _ else _)
    split
    · exact hlate
    · refine .enter fun y hy _ => ?_
      change Careful _ _ _ _ _ _ (s.ingestExclusive ⟨s.checksum data, stamp⟩ data _ _ _ >>= _)
      refine bind hy ((ingestExclusive contentType hfaithful stamp deadline).weaken ?_)
      rintro answer inside z hz ⟨rfl, hdelivers⟩
      refine .leave fun z' _ hzz' => .done fun z'' _ hz'' => ⟨rfl, fun done hdone => ?_⟩
      exact (hdelivers done hdone).grows (hzz'.grows.trans hz''.grows)

end

end Careful

end ContentVault
