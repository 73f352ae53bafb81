import ContentVault.Proofs.Store.Reads
import ContentVault.Store.Backend
set_option autoImplicit false

/-!
# Reading by checksum

A read of a checksum yields the records that reads of its identifiers yield one by one, in the
order of the identifiers.  What cannot be read is left out and does not keep the others from
being read.
-/

namespace ContentVault

/-! ## MatchesHash of records -/

/-- The record `a` stands before the record `b`. -/
def ContentRecord.Before (a b : ContentRecord) : Prop := compare a.id b.id = .lt

instance : Std.Irrefl ContentRecord.Before where
  irrefl a h := by
    rw [ContentRecord.Before, Std.compare_self] at h
    cases h

instance : Std.Antisymm ContentRecord.Before where
  antisymm a b hab hba := by
    have hself : compare a.id a.id = .lt := Std.TransCmp.lt_trans hab hba
    rw [Std.compare_self] at hself
    cases hself

/-- What is found first in an ordered list stands before all else that is looked for. -/
theorem ContentRecord.before_of_find? {records : List ContentRecord} {p : ContentRecord → Bool}
    {first record : ContentRecord} (hordered : records.Pairwise Before)
    (hfirst : records.find? p = some first) (hmem : record ∈ records) (hp : p record = true) :
    record = first ∨ first.Before record := by
  induction records with
  | nil => cases hmem
  | cons head rest ih =>
    obtain ⟨hhead, hrest⟩ := List.pairwise_cons.mp hordered
    by_cases hphead : p head = true
    · rw [List.find?_cons_of_pos hphead] at hfirst
      cases hfirst
      rcases List.mem_cons.mp hmem with rfl | hin
      · exact Or.inl rfl
      · exact Or.inr (hhead record hin)
    · rw [List.find?_cons_of_neg hphead] at hfirst
      rcases List.mem_cons.mp hmem with rfl | hin
      · exact absurd hp hphead
      · exact ih hrest hfirst hin

/-- The record that a read of one identifier yields, if it yields one. -/
def recordAt? {σ : Type} [Backend σ] (b : σ) (id : StoreId) : Option ContentRecord :=
  match (Backend.getStore id b).1 with
  | .ok record? => record?
  | .error _ => none

theorem recordAt?_eq_some_iff {σ : Type} [Backend σ] (b : σ) (id : StoreId)
    (record : ContentRecord) :
    recordAt? b id = some record ↔ (Backend.getStore id b).1 = .ok (some record) := by
  unfold recordAt?
  cases (Backend.getStore id b).1 with
  | error e => simp
  | ok record? => simp

/-- The records of a checksum that can be read, in the order of their identifiers. -/
structure MatchesHash {σ : Type} [Backend σ] (b : σ) (hash : UInt32)
    (records : List ContentRecord) : Prop where
  ordered : records.Pairwise ContentRecord.Before
  mem_iff : ∀ record, record ∈ records ↔ ∃ id, id.hash = hash ∧ recordAt? b id = some record

/-- Backends that yield the same records yield them in the same order. -/
theorem MatchesHash.congr {σ : Type} [Backend σ] {b c : σ} {hash : UInt32}
    {records records' : List ContentRecord} (h : MatchesHash b hash records)
    (h' : MatchesHash c hash records')
    (hsame : ∀ id record, recordAt? c id = some record ↔ recordAt? b id = some record) :
    records' = records := by
  refine h'.ordered.eq_of_mem_iff h.ordered fun record => ?_
  rw [h.mem_iff, h'.mem_iff]
  simp only [hsame]

namespace ChunkedStore

/-! ## The records of a chunked store -/

/-- The identifiers of a checksum that have documents, in their order. -/
def storedIds (s : ChunkedStore) (hash : UInt32) : List StoreId :=
  s.stores.records.keys.filter fun id => id.hash == hash

theorem mem_storedIds_iff (s : ChunkedStore) (hash : UInt32) (id : StoreId) :
    id ∈ s.storedIds hash ↔ (s.stores.find id).isSome = true ∧ id.hash = hash := by
  rw [storedIds, List.mem_filter, beq_iff_eq, OrderedMap.keys, List.mem_map,
    Option.isSome_iff_exists]
  refine and_congr_left fun _ => ?_
  constructor
  · rintro ⟨⟨id', doc⟩, hmem, rfl⟩
    exact ⟨doc, (s.stores.records.mem_entries_iff _ _).mp hmem⟩
  · rintro ⟨doc, hdoc⟩
    exact ⟨(id, doc), (s.stores.records.mem_entries_iff _ _).mpr hdoc, rfl⟩

theorem storedIds_pairwise (s : ChunkedStore) (hash : UInt32) :
    (s.storedIds hash).Pairwise fun a b => compare a b = .lt := by
  have hkeys : s.stores.records.keys.Pairwise fun a b => compare a b = .lt :=
    List.pairwise_map.mpr s.stores.records.sorted
  exact hkeys.filter _

theorem recordAt?_eq (s : ChunkedStore) (id : StoreId) :
    recordAt? s id
      = (s.meta? id).bind fun m => (readRecord id m (s.storedPieces id m.writer)).toOption := by
  unfold recordAt?
  rw [getStore_eq]
  cases s.meta? id with
  | none => rfl
  | some m =>
    simp only [Option.bind_some]
    cases readRecord id m (s.storedPieces id m.writer) with
    | error e => rfl
    | ok record => rfl

/-- A record bears the identifier under which it is read. -/
theorem id_of_recordAt? {s : ChunkedStore} {id : StoreId} {record : ContentRecord}
    (h : recordAt? s id = some record) : record.id = id := by
  rw [recordAt?_eq, Option.bind_eq_some_iff] at h
  obtain ⟨m, _, hread⟩ := h
  cases hrecord : readRecord id m (s.storedPieces id m.writer) with
  | error e =>
    rw [hrecord] at hread
    cases hread
  | ok found =>
    rw [hrecord] at hread
    cases hread
    obtain ⟨content, _, rfl⟩ := readRecord_eq_ok hrecord
    rfl

/-- What can be read has a document. -/
theorem isSome_of_recordAt? {s : ChunkedStore} {id : StoreId} {record : ContentRecord}
    (h : recordAt? s id = some record) : (s.stores.find id).isSome = true := by
  rw [recordAt?_eq, Option.bind_eq_some_iff] at h
  obtain ⟨m, hm, _⟩ := h
  obtain ⟨doc, hdoc, _⟩ := Option.bind_eq_some_iff.mp hm
  rw [hdoc]
  rfl

/-- A read of a checksum comes to reads of its identifiers, one after the other. -/
theorem matchHash_eq_filterMap (s : ChunkedStore) (hash : UInt32) :
    Backend.matchHash hash s = (.ok ((s.storedIds hash).filterMap (recordAt? s)), s) := by
  rw [matchHash_eq]
  refine congrArg (fun records => (Except.ok records, s)) ?_
  rw [committed, Collection.scanFrom, OrderedMap.run_eq_filter (StoreId.isRun_hash hash),
    List.filterMap_filterMap, storedIds, OrderedMap.keys, List.filter_map, List.filterMap_map]
  refine List.filterMap_congr ?_
  rintro ⟨id, doc⟩ hmem
  have hdoc : s.stores.find id = some doc :=
    (s.stores.records.mem_entries_iff id doc).mp (List.mem_of_mem_filter hmem)
  rw [Function.comp_apply, recordAt?_eq, meta?, hdoc, Option.bind_some, Option.bind_map]
  rfl

theorem matchesHash_filterMap (s : ChunkedStore) (hash : UInt32) :
    MatchesHash s hash ((s.storedIds hash).filterMap (recordAt? s)) := by
  refine ⟨?_, fun record => ?_⟩
  · rw [List.pairwise_filterMap]
    refine (s.storedIds_pairwise hash).imp fun {a b} hlt record hrecord record' hrecord' => ?_
    rw [ContentRecord.Before, id_of_recordAt? hrecord, id_of_recordAt? hrecord']
    exact hlt
  · rw [List.mem_filterMap]
    refine exists_congr fun id => and_congr_left fun hrecord => ?_
    rw [mem_storedIds_iff]
    exact and_iff_right (isSome_of_recordAt? hrecord)

/-! ## What is left out -/

/-- The stores differ in nothing but the document and the chunks of one identifier. -/
structure SameApart (s t : ChunkedStore) (id : StoreId) : Prop where
  stores : ∀ id', id' ≠ id → t.stores.find id' = s.stores.find id'
  chunks : ∀ key : ChunkKey, key.store ≠ id → t.chunks.find key = s.chunks.find key

/-- Other blobs are read as before. -/
theorem SameApart.getStore_eq {s t : ChunkedStore} {id : StoreId} (h : SameApart s t id)
    {id' : StoreId} (hne : id' ≠ id) :
    (Backend.getStore id' t).1 = (Backend.getStore id' s).1 := by
  refine getStore_congr ?_ fun _ _ _ => h.chunks _ hne
  rw [meta?, meta?, h.stores id' hne]

/-- What is under one identifier does not matter to the records of the others. -/
theorem SameApart.filter_matchesHash {s t : ChunkedStore} {id : StoreId} (h : SameApart s t id)
    {hash : UInt32} {records records' : List ContentRecord} (hs : MatchesHash s hash records)
    (ht : MatchesHash t hash records') :
    records'.filter (fun record => record.id ≠ id)
      = records.filter fun record => record.id ≠ id := by
  refine (ht.ordered.filter _).eq_of_mem_iff (hs.ordered.filter _) fun record => ?_
  rw [List.mem_filter, List.mem_filter, hs.mem_iff, ht.mem_iff, decide_eq_true_eq]
  refine and_congr_left fun hne => exists_congr fun id' => and_congr_right fun _ => ?_
  by_cases hid : id' = id
  · subst hid
    exact iff_of_false (fun hrecord => hne (id_of_recordAt? hrecord))
      fun hrecord => hne (id_of_recordAt? hrecord)
  · rw [recordAt?_eq_some_iff, recordAt?_eq_some_iff, h.getStore_eq hid]

/-- A read that yields no record finds nothing committed, or finds it corrupt. -/
theorem recordAt?_eq_none_iff (s : ChunkedStore) (id : StoreId) :
    recordAt? s id = none ↔ (Backend.getStore id s).1 = .ok none ∨
      ∃ reason, (Backend.getStore id s).1 = .error (.corruptData reason) := by
  constructor
  · intro h
    rw [recordAt?_eq] at h
    rw [getStore_eq]
    cases hm : s.meta? id with
    | none => exact Or.inl rfl
    | some m =>
      simp only [hm, Option.bind_some] at h ⊢
      cases hread : readRecord id m (s.storedPieces id m.writer) with
      | error e =>
        obtain ⟨reason, rfl⟩ := readRecord_error hread
        exact Or.inr ⟨reason, rfl⟩
      | ok record =>
        rw [hread] at h
        cases h
  · unfold recordAt?
    rintro (h | ⟨reason, h⟩)
    · rw [h]
    · rw [h]

/-- An identifier of the checksum is left out exactly if its read yields no record. -/
theorem forall_id_ne_iff {s : ChunkedStore} {id : StoreId} {records : List ContentRecord}
    (h : MatchesHash s id.hash records) :
    (∀ record ∈ records, record.id ≠ id) ↔ recordAt? s id = none := by
  constructor
  · intro hout
    by_contra hsome
    obtain ⟨record, hrecord⟩ := Option.ne_none_iff_exists'.mp hsome
    exact hout record ((h.mem_iff record).mpr ⟨id, rfl, hrecord⟩) (id_of_recordAt? hrecord)
  · rintro hnone record hmem rfl
    obtain ⟨id', _, hrecord⟩ := (h.mem_iff record).mp hmem
    rw [id_of_recordAt? hrecord, hrecord] at hnone
    cases hnone

/-- The records that a read of a checksum yields, and the identifiers that it leaves out. -/
structure AgreesWithReads (s : ChunkedStore) (hash : UInt32) (records : List ContentRecord) :
    Prop where
  /-- They are what reads of the stored identifiers yield, in the order of the identifiers. -/
  one_by_one : records = (s.storedIds hash).filterMap (recordAt? s)
  ordered : records.Pairwise ContentRecord.Before
  mem_iff : ∀ record, record ∈ records ↔ ∃ id, (s.stores.find id).isSome = true ∧ id.hash = hash ∧
    (Backend.getStore id s).1 = .ok (some record)
  /-- A stored identifier without a record is only reserved, or its data is corrupt. -/
  left_out : ∀ id, (s.stores.find id).isSome = true → id.hash = hash →
    ((∀ record ∈ records, record.id ≠ id) ↔
      (Backend.getStore id s).1 = .ok none ∨
        ∃ reason, (Backend.getStore id s).1 = .error (.corruptData reason))
  /-- Whatever is under one identifier, the other records are the same. -/
  unaffected : ∀ (id : StoreId) (t : ChunkedStore), SameApart s t id →
    ∃ records', Backend.matchHash hash t = (.ok records', t) ∧
      records'.filter (fun record => record.id ≠ id)
        = records.filter fun record => record.id ≠ id

/-- Whatever stands in the collections, a read of a checksum yields what reads of its identifiers
yield. -/
theorem matchHash_agrees_with_reads (s : ChunkedStore) (hash : UInt32) :
    ∃ records, Backend.matchHash hash s = (.ok records, s) ∧ AgreesWithReads s hash records := by
  have hmatches := s.matchesHash_filterMap hash
  refine ⟨_, s.matchHash_eq_filterMap hash, rfl, hmatches.ordered, fun record => ?_, ?_, ?_⟩
  · rw [hmatches.mem_iff]
    refine exists_congr fun id => ?_
    rw [← recordAt?_eq_some_iff]
    exact ⟨fun h => ⟨isSome_of_recordAt? h.2, h⟩, fun h => h.2⟩
  · rintro id _ rfl
    exact (forall_id_ne_iff hmatches).trans (s.recordAt?_eq_none_iff id)
  · intro id t hsame
    exact ⟨_, t.matchHash_eq_filterMap hash,
      hsame.filter_matchesHash hmatches (t.matchesHash_filterMap hash)⟩

end ChunkedStore

end ContentVault
