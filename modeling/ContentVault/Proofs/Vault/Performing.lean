import ContentVault.Proofs.Store.Vacating
import ContentVault.Proofs.Vault.Probing
set_option autoImplicit false

/-!
# Lines carried out

A call to a store of blobs answers what the catalogue of its blobs tells, whichever stamps and
tokens are drawn: content is found where the catalogue finds it, and it is refused what its backend
refuses.
-/

namespace ContentVault

/-- What a line was answered. -/
inductive Reply where
  | ingested (answer : Except VaultError Ingested)
  | retrieved (answer : Except VaultError Retrieved)
  | changed (answer : Except VaultError Unit)
  | matched (answer : Except VaultError (List ContentRecord))

namespace Reply

/-- What is shown of a reply. -/
def shown : Reply → Shown
  | ingested answer => .ofAnswer .ofIngested answer
  | retrieved answer => .ofAnswer .ofRetrieved answer
  | changed answer => .ofAnswer (fun _ => .changed) answer
  | matched answer => .ofAnswer .ofMatched answer

/-- The identifier that was given to content. -/
def id? : Reply → Option StoreId
  | ingested (.ok done) => some done.record.id
  | _ => none

end Reply

/-- What a line does. -/
def Line.procedure [Codec] (s : ContentStore) : Line StoreId → Procedure Reply
  | ingest data contentType deadline =>
    return .ingested (← s.ingest data contentType deadline)
  | get id deadline => return .retrieved (← ContentStore.get id deadline)
  | updateStatus id status deadline =>
    return .changed (← ContentStore.updateStatus id status deadline)
  | matchHash hash deadline => return .matched (← ContentStore.matchHash hash deadline)

/-- The blob of a number has the identifier. -/
def Numbers (records : List ContentRecord) (n : Nat) (id : StoreId) : Prop :=
  (records.map (·.id))[n]? = some id

variable {σ : Type} [Backend σ] [LimitedBackend σ]

/-- A line was answered as the catalogue tells, and the backend holds the blobs that it tells.
Identifiers that were given stay. -/
inductive Plays (limits : Limits) (records : List ContentRecord) (result : Catalogue.Result)
    (reply : Reply) (b : σ) : Prop where
  | intro {m : MemoryStore} {records' : List ContentRecord}
    (limited : LimitedBackend.Limited limits b m) (lists : Lists records' m)
    (blobs_eq : records'.map ContentRecord.unstamped = result.blobs)
    (ids : records.map (·.id) <+: records'.map (·.id))
    (named : Option.Rel (Numbers records') result.name? reply.id?)
    (shown_eq : reply.shown = result.shown)

section

variable {limits : Limits} {b : σ} {m : MemoryStore} {records : List ContentRecord} {t : Moment}

/-- What is answered without a change. -/
theorem Plays.of_same (hlimited : LimitedBackend.Limited limits b m) (h : Lists records m)
    {shown : Shown} {reply : Reply} (hid : reply.id? = none) (hshown : reply.shown = shown) :
    Plays limits records ⟨shown, none, records.map ContentRecord.unstamped⟩ reply b :=
  .intro hlimited h rfl List.prefix_rfl (hid ▸ .none) hshown

/-- A call that comes too late does nothing, and else what the catalogue tells of it in time. -/
theorem plays_unlessPassed [Codec] {s : ContentStore} {α : Type}
    {p : Procedure (Except VaultError α)} {reply : Except VaultError α → Reply} {clock : ClockKind}
    (line : Line Nat) (hlimited : LimitedBackend.Limited limits b m) (h : Lists records m)
    (hid : (reply (.error (.store .timeout))).id? = none)
    (hshown : (reply (.error (.store .timeout))).shown = .failed "Store/Timeout")
    (hin : line.deadline.isExpired t.timer = false →
      Ensures (StandsAt clock line.deadline t)
        (fun answer b' => Plays limits records
          (Catalogue.answer s limits t (records.map ContentRecord.unstamped) line) (reply answer)
          b')
        p b) :
    Ensures (StandsAt clock line.deadline t)
      (fun answer b' => Plays limits records
        (Catalogue.answer s limits t (records.map ContentRecord.unstamped) line) (reply answer) b')
      (ContentStore.unlessPassed line.deadline p) b := by
  refine ContentStore.ensures_unlessPassed (fun ⟨around, hstands, hpassed⟩ => ?_)
    fun ⟨around, hstands, hpassed⟩ => ?_
  · exact hin (hstands.timer ▸ hpassed)
  · have hanswer : Catalogue.answer s limits t (records.map ContentRecord.unstamped) line
        = Catalogue.failure "Timeout" (records.map ContentRecord.unstamped) :=
      if_pos (hstands.timer ▸ hpassed)
    rw [hanswer]
    exact .of_same hlimited h hid hshown

/-! ## Looking for content -/

namespace Lists

variable [Codec] {s : ContentStore} {contents : List Bytes} {data : Bytes}
  (h : Lists records m)
  (hdistinct : Catalogue.Distinct s.checksum contents (records.map ContentRecord.unstamped))
  (hfaithful : Faithful s.compressionLevel data)

include h hdistinct hfaithful in
/-- Content that is found among the blobs of its checksum is the one that the catalogue finds. -/
theorem find?_isCopy_of_some {existing : ContentRecord}
    (hfound : (m.matchHash (s.checksum data)).find?
      (ContentStore.holds data (Codec.compress data s.compressionLevel)) = some existing) :
    ∃ n, records[n]? = some existing ∧
      (records.map ContentRecord.unstamped).zipIdx.find? (fun e => Catalogue.isCopy s data e.1)
        = some (existing.unstamped, n) := by
  have hmem := ((h.matchHash_perm _).mem_iff).mp (List.mem_of_find?_eq_some hfound)
  obtain ⟨hmem, hhash⟩ := List.mem_filter.mp hmem
  obtain ⟨n, hn⟩ := List.mem_iff_getElem?.mp hmem
  have hblob : (records.map ContentRecord.unstamped)[n]? = some existing.unstamped := by
    rw [List.getElem?_map, hn, Option.map_some]
  have hholds := List.find?_some hfound
  have hcopy : Catalogue.isCopy s data existing.unstamped = true :=
    Bool.and_eq_true_iff.mpr ⟨hhash, hholds⟩
  refine ⟨n, hn, ?_⟩
  cases hfind : (records.map ContentRecord.unstamped).zipIdx.find?
      (fun e => Catalogue.isCopy s data e.1) with
  | none =>
    have hentry : (existing.unstamped, n) ∈ (records.map ContentRecord.unstamped).zipIdx :=
      List.mem_zipIdx_iff_getElem?.mpr hblob
    exact absurd hcopy (List.find?_eq_none.mp hfind _ hentry)
  | some entry =>
    -- The catalogue finds a copy too, and no content is kept twice.
    obtain ⟨blob', n'⟩ := entry
    have hblob' : (records.map ContentRecord.unstamped)[n']? = some blob' :=
      List.mem_zipIdx_iff_getElem?.mp (List.mem_of_find?_eq_some hfind)
    have hcopy' : Catalogue.isCopy s data blob' = true := List.find?_some (a := (blob', n')) hfind
    have hsame : blob'.decompressed = existing.unstamped.decompressed :=
      ((Catalogue.isCopy_iff hfaithful _).mp hcopy').2.trans
        ((Catalogue.isCopy_iff hfaithful _).mp hcopy).2.symm
    cases index_eq_of_nodup_map hdistinct.apart hblob' hblob hsame
    rw [Option.some.inj (hblob'.symm.trans hblob)]

omit hdistinct hfaithful in
include h in
/-- Content that is not found among the blobs of its checksum is not in the catalogue. -/
theorem isCopy_eq_false_of_none
    (hnone : (m.matchHash (s.checksum data)).find?
      (ContentStore.holds data (Codec.compress data s.compressionLevel)) = none) :
    ∀ blob ∈ records.map ContentRecord.unstamped, Catalogue.isCopy s data blob = false := by
  intro blob hblob
  obtain ⟨record, hrecord, rfl⟩ := List.mem_map.mp hblob
  rw [Bool.eq_false_iff]
  intro hcopy
  obtain ⟨hhash, hholds⟩ := Bool.and_eq_true_iff.mp hcopy
  have hmem : record ∈ m.matchHash (s.checksum data) :=
    ((h.matchHash_perm _).mem_iff).mpr (List.mem_filter.mpr ⟨hrecord, hhash⟩)
  exact List.find?_eq_none.mp hnone record hmem hholds

end Lists

/-! ## Ingests -/

omit [LimitedBackend σ] in
/-- While its clock stands still, a commit is that of the backend under a clock that does. -/
theorem World.answer_commitStore_standing {w : World σ} {clock : ClockKind} {now : UInt64}
    (h : w.clock clock = .still now) (record : ContentRecord) (r : Reservation StoreId) :
    ((World.answer (.commitStore clock r record) w).1,
      (World.answer (.commitStore clock r record) w).2.backend)
        = Atomic.standing now (Backend.commitStore r record) w.backend := by
  obtain ⟨hanswer, hafter⟩ := w.answer_commitStore clock r record
  rw [hanswer, hafter, h]
  rfl

namespace ContentStore

variable {kind : World Unit → Prop} {r : Reservation StoreId}

/-- A claim on a free identifier that is given up leaves nothing. -/
theorem ensures_abandonWith_at {α : Type} (hfree : m.stores.get? r.id = none)
    (hlimited : LimitedBackend.Limited limits b
      { m with stores := m.stores.insert r.id (.reserved r.lease) })
    (answer : Except VaultError α) :
    Ensures kind (fun answer' b' => answer' = answer ∧ LimitedBackend.Limited limits b' m)
      (abandonWith r answer) b := by
  intro around _
  refine ⟨rfl, ?_⟩
  have hclaim := claimStore_of_free hfree r.lease 0
  have hrelease := MemoryStore.release_claim (congrArg Prod.fst hclaim)
  rw [hclaim] at hrelease
  have hobeys := LimitedBackend.obeys_release hlimited r
  have hvacated : MemoryStore.vacate r.id m = m := TidyBackend.vacate_of_free rfl hfree
  exact (hrelease.trans hvacated) ▸ hobeys.2

/-- An ingest that gives its claim up fails, and the blobs stay. -/
theorem plays_abandonWith (h : Lists records m) (hfree : m.stores.get? r.id = none)
    (hlimited : LimitedBackend.Limited limits b
      { m with stores := m.stores.insert r.id (.reserved r.lease) }) (e : StoreError) :
    Ensures kind
      (fun answer b' => Plays limits records
        (Catalogue.failure e.name (records.map ContentRecord.unstamped)) (.ingested answer) b')
      (abandonWith r (.error (.store e))) b :=
  (ensures_abandonWith_at hfree hlimited _).weaken fun _ _ ⟨hanswer, hlimited'⟩ =>
    .of_same hlimited' h (hanswer ▸ rfl) (hanswer ▸ rfl)

variable [Codec] (s : ContentStore) {contents : List Bytes} {data : Bytes} {contentType : String}
  {deadline : Deadline} (h : Lists records m)

section

variable (hfree : m.stores.get? r.id = none) (hhash : r.id.hash = s.checksum data)
  (hexpires : r.lease.expiresAt = Lease.expiry t.wall s.reserver.policy.ttl.millisWord)
  (hlimited : LimitedBackend.Limited limits b
    { m with stores := m.stores.insert r.id (.reserved r.lease) })
  (hlength : (Codec.compress data s.compressionLevel).length < UInt64.size)

include h hfree hhash hexpires hlimited hlength

omit hexpires hlimited hlength in
/-- Content that is committed under a claim is one blob more, and the last one. -/
theorem plays_committed {b' : σ}
    (hcommitted : LimitedBackend.Limited limits b'
      { m with
        stores := (m.stores.insert r.id (.reserved r.lease)).insert r.id
          (.committed ((Catalogue.fresh s data contentType).withId r.id)) }) :
    Plays limits records
      ⟨.ingested (Catalogue.fresh s data contentType) false,
        some (records.map ContentRecord.unstamped).length,
        records.map ContentRecord.unstamped ++ [Catalogue.fresh s data contentType]⟩
      (.ingested (.ok ⟨(Catalogue.fresh s data contentType).withId r.id, false⟩)) b' := by
  let record : ContentRecord := (Catalogue.fresh s data contentType).withId r.id
  have hunstamped : record.unstamped = Catalogue.fresh s data contentType := by
    change (Catalogue.fresh s data contentType).withId ⟨r.id.hash, 0⟩ = _
    rw [hhash]
    rfl
  have hlists : Lists (records ++ [record])
      { m with
        stores := (m.stores.insert r.id (.reserved r.lease)).insert r.id (.committed record) } := by
    refine h.append hfree fun id => ?_
    rw [OrderedMap.get?_insert, OrderedMap.get?_insert]
    change (if id = r.id then _ else _) = if id = r.id then _ else _
    split <;> rfl
  refine .intro hcommitted hlists ?_ ?_ ?_ ?_
  · rw [List.map_append, List.map_singleton, hunstamped]
  · rw [List.map_append]
    exact List.prefix_append _ _
  · refine .some ?_
    rw [Numbers, List.map_append, List.length_map, ← List.length_map (·.id)]
    exact List.getElem?_concat_length
  · exact congrArg (Shown.ingested · false) hunstamped

/-- Content under a claim is committed as the catalogue tells. -/
theorem plays_commitFresh :
    Ensures (StandsAt s.reserver.clock deadline t)
      (fun answer b' => Plays limits records
        (Catalogue.commit s limits t.wall (records.map ContentRecord.unstamped) data contentType)
        (.ingested answer) b')
      (s.commitFresh r data (Codec.compress data s.compressionLevel) contentType) b := by
  let record : ContentRecord := .fresh r.id (Codec.compress data s.compressionLevel)
    contentType (UInt64.ofNat data.length)
  have hrecord : record = (Catalogue.fresh s data contentType).withId r.id := rfl
  let m' : MemoryStore := { m with stores := m.stores.insert r.id (.reserved r.lease) }
  have hholds : m'.stores.holds r t.wall
      = decide (t.wall < Lease.expiry t.wall s.reserver.policy.ttl.millisWord) := by
    rw [← hexpires]
    exact SlotMap.holds_insert_self m.stores r t.wall
  unfold commitFresh
  refine Ensures.bind fun around hstands => ?_
  have hid : record.id = r.id := rfl
  have hobeys := LimitedBackend.obeys_commit hlimited hid hlength t.wall
  change Obeys _ (if m'.stores.holds r t.wall then limits.commit? record else none) b _
    (ChunkedStore.commitAt t.wall r record m') at hobeys
  have hclock : (around.withBackend b).clock s.reserver.clock = .still t.wall := hstands.wall
  rw [hholds, hrecord, limits.commit?_withId, ← hrecord,
    ← World.backend_withBackend around b,
    ← World.answer_commitStore_standing hclock] at hobeys
  change Ensures _ _ _
    (World.answer (.commitStore s.reserver.clock r record) (around.withBackend b)).2.backend
  generalize World.answer (.commitStore s.reserver.clock r record) (around.withBackend b) = out
    at hobeys ⊢
  obtain ⟨answer, w⟩ := out
  unfold Catalogue.commit
  unfold Obeys at hobeys
  by_cases hlive : t.wall < Lease.expiry t.wall s.reserver.policy.ttl.millisWord
  · simp only [hlive, decide_true, if_true] at hobeys ⊢
    cases hcommit : limits.commit? (Catalogue.fresh s data contentType) with
    | some name =>
      simp only [hcommit] at hobeys ⊢
      obtain ⟨e, rfl, hrefused⟩ := hobeys
      cases hrefused
      exact plays_abandonWith h hfree hlimited e
    | none =>
      simp only [hcommit] at hobeys ⊢
      rw [ChunkedStore.commitAt_of_held rfl (hholds.trans (decide_eq_true hlive))] at hobeys
      obtain ⟨rfl, hcommitted⟩ := hobeys
      exact plays_committed s h hfree hhash hcommitted
  · simp only [hlive, decide_false, if_false, Bool.false_eq_true] at hobeys ⊢
    rw [ChunkedStore.commitAt_of_not_held rfl (hholds.trans (decide_eq_false hlive))] at hobeys
    obtain ⟨rfl, hmodels⟩ := hobeys
    exact plays_abandonWith h hfree hmodels r.notReserved

/-- Content under a claim is not found in vain a second time, and is committed in time. -/
theorem plays_ingestReserved (htime : deadline.isExpired t.timer = false)
    (hnone : (m.matchHash (s.checksum data)).find?
      (holds data (Codec.compress data s.compressionLevel)) = none) :
    Ensures (StandsAt s.reserver.clock deadline t)
      (fun answer b' => Plays limits records
        (Catalogue.commit s limits t.wall (records.map ContentRecord.unstamped) data contentType)
        (.ingested answer) b')
      (s.ingestReserved r (s.checksum data) data (Codec.compress data s.compressionLevel)
        contentType deadline) b := by
  have hrecord : m.stores.record? r.id = none := SlotMap.record?_of_free hfree
  have hsame : MemoryStore.SameRecords m
      { m with stores := m.stores.insert r.id (.reserved r.lease) } :=
    SlotMap.record?_insert_eq hrecord rfl
  unfold ingestReserved
  refine Ensures.bind ((ensures_findDuplicate (LimitedBackend.models hlimited) _ _ _).weaken ?_)
  rintro _ _ ⟨rfl, rfl⟩
  rw [hsame.find?_matchHash_eq_none hnone]
  refine Ensures.bind ((deadline.ensures_passed _).weaken ?_)
  rintro passed _ ⟨rfl, around, hstands, hpassed⟩
  rw [hstands.timer, htime] at hpassed
  rw [hpassed]
  exact s.plays_commitFresh h hfree hhash hexpires hlimited hlength

end

variable (hdistinct : Catalogue.Distinct s.checksum contents (records.map ContentRecord.unstamped))
  (hlimited : LimitedBackend.Limited limits b m) (hmem : data ∈ contents)
  (hfaithful : Faithful s.compressionLevel data)
  (hfew : (contents.filter (s.checksum · == s.checksum data)).dedup.length
    ≤ min s.reserver.policy.maxAttempts.toNat 65536)

include h hdistinct hlimited hmem hfaithful hfew

/-- Content is found where the catalogue finds it; else there is an identifier for it. -/
theorem plays_ingestExclusive (htime : deadline.isExpired t.timer = false) (stamp : UInt16) :
    Ensures (StandsAt s.reserver.clock deadline t)
      (fun answer b' => Plays limits records
        (Catalogue.ingest s limits t.wall (records.map ContentRecord.unstamped) data contentType)
        (.ingested answer) b')
      (s.ingestExclusive ⟨s.checksum data, stamp⟩ data
        (Codec.compress data s.compressionLevel) contentType deadline) b := by
  unfold ingestExclusive
  refine Ensures.bind ((ensures_findDuplicate (LimitedBackend.models hlimited) _ _ _).weaken ?_)
  rintro _ _ ⟨rfl, rfl⟩
  unfold Catalogue.ingest
  cases hfind : (m.matchHash (s.checksum data)).find?
      (holds data (Codec.compress data s.compressionLevel)) with
  | some existing =>
    obtain ⟨n, hn, hfound⟩ := h.find?_isCopy_of_some hdistinct hfaithful hfind
    rw [hfound]
    have hid : Numbers records n existing.id := by
      rw [Numbers, List.getElem?_map, hn, Option.map_some]
    exact .intro hlimited h rfl List.prefix_rfl (.some hid) rfl
  | none =>
    have hnew := h.isCopy_eq_false_of_none hfind
    have habsent : (records.map ContentRecord.unstamped).zipIdx.find?
        (fun e => Catalogue.isCopy s data e.1) = none := by
      refine List.find?_eq_none.mpr fun entry hentry => Bool.eq_false_iff.mp (hnew entry.1 ?_)
      exact List.mem_of_getElem? (List.mem_zipIdx_iff_getElem?.mp hentry)
    have hcount : (records.filter (·.id.hash == s.checksum data)).length
        < min s.reserver.policy.maxAttempts.toNat 65536 := by
      have hlt := hdistinct.length_filter_lt hfaithful hmem hnew
      rw [List.filter_map, List.length_map] at hlt
      exact hlt.trans_le hfew
    rw [habsent]
    refine Ensures.bind ((s.reserver.ensures_reserve_at hlimited h htime
      ⟨s.checksum data, stamp⟩ hcount).weaken ?_)
    rintro answer b' hreserves
    cases hreserves with
    | refused hrefused hname =>
      simp only [hrefused, ← hname]
      exact .of_same hlimited h rfl rfl
    | granted hclaim hhash hfree hexpires hlimited' =>
      simp only [hclaim]
      exact s.plays_ingestReserved h hfree hhash hexpires hlimited' hfaithful.compressed_lt htime
        hfind

/-- An ingest answers what the catalogue tells. -/
theorem plays_ingest :
    Ensures (StandsAt s.reserver.clock deadline t)
      (fun answer b' => Plays limits records
        (Catalogue.answer s limits t (records.map ContentRecord.unstamped)
          (.ingest data contentType deadline))
        (.ingested answer) b')
      (s.ingest data contentType deadline) b := by
  unfold ingest
  refine plays_unlessPassed (.ingest data contentType deadline) hlimited h rfl rfl fun _ => ?_
  refine Ensures.bind (Ensures.ask_local trivial fun _ _ => ?_)
  refine plays_unlessPassed (.ingest data contentType deadline) hlimited h rfl rfl fun htime => ?_
  refine Ensures.bind (Ensures.ask_local trivial fun _ _ => ?_)
  have hanswer : Catalogue.answer s limits t (records.map ContentRecord.unstamped)
      (.ingest data contentType deadline)
        = Catalogue.ingest s limits t.wall (records.map ContentRecord.unstamped) data
          contentType := if_neg (Bool.eq_false_iff.mp htime)
  rw [hanswer]
  refine Ensures.bind ((s.plays_ingestExclusive h hdistinct hlimited hmem hfaithful hfew htime
    _).weaken fun answer b' hplays => ?_)
  exact Ensures.bind (Ensures.ask_local trivial fun _ _ => hplays)

end ContentStore

/-! ## Reads and changes of a status -/

namespace ContentStore

variable (s : ContentStore) {clock : ClockKind} (hlimited : LimitedBackend.Limited limits b m)
  (h : Lists records m) {deadline : Deadline}

section

variable {n : Nat} {record : ContentRecord} (hn : records[n]? = some record)

include hn in
omit h in
/-- A line in time finds the blob that it names. -/
theorem getElem?_unstamped :
    (records.map ContentRecord.unstamped)[n]? = some record.unstamped := by
  rw [List.getElem?_map, hn, Option.map_some]

variable [Codec]

include hlimited h hn

/-- The content that is read is the one that the catalogue has. -/
theorem plays_get :
    Ensures (StandsAt clock deadline t)
      (fun answer b' => Plays limits records
        (Catalogue.answer s limits t (records.map ContentRecord.unstamped) (.get n deadline))
        (.retrieved answer) b')
      (get record.id deadline) b := by
  unfold get
  refine plays_unlessPassed (.get n deadline) hlimited h rfl rfl fun htime => ?_
  refine Ensures.bind ((ensures_record (LimitedBackend.models hlimited) record.id).weaken ?_)
  rintro _ _ ⟨rfl, rfl⟩
  rw [(h.record?_iff record.id record).mpr ⟨List.mem_of_getElem? hn, rfl⟩]
  refine plays_unlessPassed (.get n deadline) hlimited h rfl rfl fun _ => ?_
  have hanswer : Catalogue.answer s limits t (records.map ContentRecord.unstamped) (.get n deadline)
      = ⟨.ofAnswer .ofRetrieved (retrieve record.unstamped), none,
        records.map ContentRecord.unstamped⟩ := by
    rw [Catalogue.answer, if_neg (Bool.eq_false_iff.mp htime)]
    simp only [getElem?_unstamped hn]
  rw [hanswer]
  refine .of_same hlimited h rfl ?_
  have hcontent : record.unstamped.decompressed = record.decompressed := rfl
  unfold retrieve
  rw [hcontent]
  cases record.decompressed with
  | error e => rfl
  | ok bytes => rfl

/-- A status is changed, or refused, as in the catalogue. -/
theorem plays_updateStatus (status : Status) :
    Ensures (StandsAt clock deadline t)
      (fun answer b' => Plays limits records
        (Catalogue.answer s limits t (records.map ContentRecord.unstamped)
          (.updateStatus n status deadline))
        (.changed answer) b')
      (updateStatus record.id status deadline) b := by
  unfold updateStatus
  refine plays_unlessPassed (.updateStatus n status deadline) hlimited h rfl rfl fun htime => ?_
  refine Ensures.bind fun around _ => ?_
  change Plays limits records _ (.changed (ofStore (Backend.updateStatus record.id status b).1))
    (Backend.updateStatus record.id status b).2
  have hget := (h.record?_iff record.id record).mpr ⟨List.mem_of_getElem? hn, rfl⟩
  have hrefused : limits.status? record status = limits.status? record.unstamped status :=
    congrFun (limits.status?_withId record.unstamped record.id) status
  have hobeys := LimitedBackend.obeys_updateStatus hlimited record.id status
  rw [hget, Option.bind_some, hrefused] at hobeys
  rw [Catalogue.answer, if_neg (Bool.eq_false_iff.mp htime)]
  simp only [getElem?_unstamped hn]
  unfold Obeys at hobeys
  cases hstatus : limits.status? record.unstamped status with
  | some name =>
    simp only [hstatus] at hobeys ⊢
    obtain ⟨e, rfl, hout⟩ := hobeys
    rw [hout]
    exact .of_same hlimited h rfl rfl
  | none =>
    simp only [hstatus] at hobeys ⊢
    obtain ⟨m', hchanged, hlists⟩ := h.set_status hn status
    rw [hchanged] at hobeys
    obtain ⟨hanswer, hmodels⟩ := hobeys
    rw [hanswer]
    have hids : (records.set n { record with status }).map (·.id) = records.map (·.id) :=
      map_set_of_key_eq hn rfl
    exact .intro hmodels hlists List.map_set (hids ▸ List.prefix_rfl) .none rfl

end

include hlimited h in
/-- The blobs of a checksum are those of the catalogue, in some order. -/
theorem plays_matchHash [Codec] (hash : UInt32) :
    Ensures (StandsAt clock deadline t)
      (fun answer b' => Plays limits records
        (Catalogue.answer s limits t (records.map ContentRecord.unstamped)
          (.matchHash hash deadline))
        (.matched answer) b')
      (matchHash hash deadline) b := by
  unfold matchHash
  refine plays_unlessPassed (.matchHash hash deadline) hlimited h rfl rfl fun htime => ?_
  refine Ensures.bind fun around _ => ?_
  change Plays limits records _ (.matched (ofStore (Backend.matchHash hash b).1))
    (Backend.matchHash hash b).2
  rw [SlotBackend.matchHash (LimitedBackend.models hlimited), Catalogue.answer,
    if_neg (Bool.eq_false_iff.mp htime)]
  refine .of_same hlimited h rfl ?_
  have hperm := (h.matchHash_perm hash).map ContentRecord.unstamped
  rw [List.filter_map]
  change Shown.matched _ = Shown.matched (Multiset.ofList ((List.map _ _).map _))
  rw [List.map_map]
  exact congrArg Shown.matched (Multiset.coe_eq_coe.mpr hperm)

end ContentStore

/-- A line is carried out as the catalogue tells, if its blob is the one that it names there. -/
theorem plays_procedure [Codec] (s : ContentStore) {contents : List Bytes}
    (hlimited : LimitedBackend.Limited limits b m) (h : Lists records m)
    (hdistinct : Catalogue.Distinct s.checksum contents (records.map ContentRecord.unstamped))
    (hfew : ∀ hash, (contents.filter (s.checksum · == hash)).dedup.length
      ≤ min s.reserver.policy.maxAttempts.toNat 65536)
    {line : Line Nat} {line' : Line StoreId} (hrel : Line.Rel (Numbers records) line line')
    (hline : ∀ data ∈ line.contents, data ∈ contents ∧ Faithful s.compressionLevel data) :
    Ensures (StandsAt s.reserver.clock line.deadline t)
      (Plays limits records
        (Catalogue.answer s limits t (records.map ContentRecord.unstamped) line))
      (line'.procedure s) b := by
  have hnamed : ∀ {n : Nat} {id : StoreId}, Numbers records n id →
      ∃ record, records[n]? = some record ∧ record.id = id := by
    intro n id hid
    rw [Numbers, List.getElem?_map, Option.map_eq_some_iff] at hid
    exact hid
  cases hrel with
  | ingest data contentType deadline =>
    obtain ⟨hmem, hfaithful⟩ := hline data (List.mem_singleton_self data)
    exact Ensures.bind (s.plays_ingest h hdistinct hlimited hmem hfaithful (hfew _))
  | get hid deadline =>
    obtain ⟨record, hn, rfl⟩ := hnamed hid
    exact Ensures.bind (s.plays_get hlimited h hn)
  | updateStatus hid status deadline =>
    obtain ⟨record, hn, rfl⟩ := hnamed hid
    exact Ensures.bind (s.plays_updateStatus hlimited h hn status)
  | matchHash hash deadline => exact Ensures.bind (s.plays_matchHash hlimited h hash)

end

end ContentVault
