import ContentVault.Proofs.Store.Reads
set_option autoImplicit false

/-!
# Scans for a prefix of the key

Keys that agree in their leading fields are one stretch of the key order, and the scans for them
start at the first key of the stretch.  So a scan sees all of them and nothing else, whatever
stands in the collections, and each operation that scans works on all the documents that it is
about.
-/

namespace ContentVault

/-- The keys with the property are one stretch of the key order, of which `start` is the first. -/
structure IsStretch {κ : Type} [Ord κ] (start : κ) (p : κ → Prop) : Prop where
  start_mem : p start
  least : ∀ k, p k → (compare start k).isLE
  convex : ∀ a b c, p a → p c → (compare a b).isLE → (compare b c).isLE → p b

theorem IsRun.isStretch {κ : Type} [Ord κ] [Std.TransOrd κ] [Std.LawfulEqOrd κ] {start : κ}
    {keep : κ → Bool} (h : IsRun start keep) (hstart : keep start = true) :
    IsStretch start fun k => keep k = true := by
  have hleast : ∀ k, keep k = true → (compare start k).isLE := by
    intro k hk
    by_contra hnot
    exact h.from_start k hk (Std.OrientedCmp.lt_of_not_isLE hnot)
  refine ⟨hstart, hleast, fun a b c ha hc hab hbc => ?_⟩
  have hb : (compare start b).isLE := Std.TransCmp.isLE_trans (hleast a ha) hab
  rcases Ordering.isLE_iff_eq_lt_or_eq_eq.mp hbc with hlt | heq
  · exact h.closed b c (Std.OrientedCmp.not_lt_of_isLE hb) hlt hc
  · exact Std.LawfulEqCmp.eq_of_compare heq ▸ hc

namespace Collection

variable {κ δ : Type} [Ord κ]

/-- All the documents whose keys have the property, in key order. -/
structure ListsAll (c : Collection κ δ) (p : κ → Prop) (found : List (κ × δ)) : Prop where
  ordered : found.Pairwise OrderedMap.Before
  mem_iff : ∀ key doc, (key, doc) ∈ found ↔ c.find key = some doc ∧ p key

/-- The keys with the property are one stretch of the key order that begins with `start`, and the
scan from there on sees all the documents that have such a key. -/
structure ScansAll (c : Collection κ δ) (start : κ) (keep : κ → Bool) (p : κ → Prop) : Prop where
  isStretch : IsStretch start p
  listsAll : c.ListsAll p (c.scanFrom start keep)

variable [Std.TransOrd κ] [Std.LawfulEqOrd κ]

theorem ListsAll.unique {c : Collection κ δ} {p : κ → Prop} {found found' : List (κ × δ)}
    (h : c.ListsAll p found) (h' : c.ListsAll p found') : found = found' := by
  apply h.ordered.eq_of_mem_iff h'.ordered
  rintro ⟨key, doc⟩
  rw [h.mem_iff, h'.mem_iff]

theorem scansAll_of_isRun (c : Collection κ δ) {start : κ} {keep : κ → Bool} {p : κ → Prop}
    (h : IsRun start keep) (hp : ∀ key, keep key = true ↔ p key) (hstart : p start) :
    c.ScansAll start keep p := by
  have hkeep : p = fun key => keep key = true := funext fun key => propext (hp key).symm
  subst hkeep
  exact ⟨h.isStretch hstart, c.records.run_sorted start keep, c.mem_scanFrom_iff h⟩

end Collection

namespace ChunkedStore

variable (s : ChunkedStore)

/-! ## The scans of a chunked store -/

theorem scansAll_files (store : StoreId) :
    s.files.ScansAll ⟨store, []⟩ (fun id => id.store == store) fun id => id.store = store :=
  s.files.scansAll_of_isRun (FileId.isRun_store store) (fun _ => beq_iff_eq) rfl

theorem scansAll_stores (hash : UInt32) :
    s.stores.ScansAll ⟨hash, 0⟩ (fun id => id.hash == hash) fun id => id.hash = hash :=
  s.stores.scansAll_of_isRun (StoreId.isRun_hash hash) (fun _ => beq_iff_eq) rfl

theorem scansAll_writer (id : StoreId) (writer : UInt64) :
    s.chunks.ScansAll (.first id writer) (fun key => key.store == id && key.writer == writer)
      fun key => key.store = id ∧ key.writer = writer :=
  s.chunks.scansAll_of_isRun (ChunkKey.isRun_writer id writer) (fun _ => by simp) ⟨rfl, rfl⟩

theorem scansAll_hash (hash : UInt32) :
    s.chunks.ScansAll (.first ⟨hash, 0⟩ 0) (fun key => key.store.hash == hash)
      fun key => key.store.hash = hash :=
  s.chunks.scansAll_of_isRun (ChunkKey.isRun_hash hash) (fun _ => beq_iff_eq) rfl

theorem scansAll_blob (id : StoreId) :
    s.chunks.ScansAll (.first id 0) (fun key => key.store == id) fun key => key.store = id :=
  s.chunks.scansAll_of_isRun (ChunkKey.isRun_store id) (fun _ => beq_iff_eq) rfl

/-- All the chunks of one writer of a blob come in the order of their numbers. -/
theorem pairwise_index_lt {s : ChunkedStore} {id : StoreId} {writer : UInt64}
    {found : List (ChunkKey × ChunkDoc)}
    (h : s.chunks.ListsAll (fun key => key.store = id ∧ key.writer = writer) found) :
    (found.map (·.1.index)).Pairwise (· < ·) := by
  rw [List.pairwise_map]
  refine h.ordered.imp_of_mem fun {e e'} he he' hbefore => ?_
  obtain ⟨_, hid, hwriter⟩ := (h.mem_iff e.1 e.2).mp he
  obtain ⟨_, hid', hwriter'⟩ := (h.mem_iff e'.1 e'.2).mp he'
  rw [OrderedMap.Before, ChunkKey.compare_def, hid, hid', hwriter, hwriter'] at hbefore
  simpa [Std.compare_eq_lt] using hbefore

/-! ## The operations that scan -/

/-- The chunks that a purge takes away are all those of the blob whose writers are doomed. -/
theorem listsAll_doomed (id : StoreId) (doomed : UInt64 → Bool) :
    s.chunks.ListsAll (fun key => key.store = id ∧ doomed key.writer = true)
      ((s.chunks.scanFrom (.first id 0) fun key => key.store == id).filter
        fun e => doomed e.1.writer) := by
  have hblob := (s.scansAll_blob id).listsAll
  refine ⟨hblob.ordered.filter _, fun key doc => ?_⟩
  rw [List.mem_filter, hblob.mem_iff, and_assoc]

theorem alone_purgeChunks_eq (id : StoreId) (doomed : UInt64 → Bool) (s : Clocked ChunkedStore) :
    (Client.purgeChunks id doomed).alone s
      = (((s.state.chunks.scanFrom (.first id 0) fun key => key.store == id).filter
          fun e => doomed e.1.writer).length, { s with state := s.state.purged id doomed }) := by
  rw [← List.countP_eq_length_filter]
  rfl

/-- The scans for a prefix, and the operations that are built on them. -/
structure PrefixScans (s : ChunkedStore) : Prop where
  /-- A scan for a blob sees all its files. -/
  files : ∀ store, s.files.ScansAll ⟨store, []⟩ (fun id => id.store == store)
    fun id => id.store = store
  /-- A scan for a checksum sees all its blobs. -/
  stores : ∀ hash, s.stores.ScansAll ⟨hash, 0⟩ (fun id => id.hash == hash) fun id => id.hash = hash
  /-- A scan for a writer of a blob sees all its chunks, in the order of their numbers. -/
  writer : ∀ id writer,
    s.chunks.ScansAll (.first id writer) (fun key => key.store == id && key.writer == writer)
        (fun key => key.store = id ∧ key.writer = writer) ∧
      ((s.chunks.scanFrom (.first id writer) fun key =>
        key.store == id && key.writer == writer).map (·.1.index)).Pairwise (· < ·)
  /-- A scan for a checksum sees the chunks of all its blobs. -/
  hash : ∀ hash, s.chunks.ScansAll (.first ⟨hash, 0⟩ 0) (fun key => key.store.hash == hash)
    fun key => key.store.hash = hash
  /-- A scan for a blob sees all its chunks. -/
  blob : ∀ id, s.chunks.ScansAll (.first id 0) (fun key => key.store == id)
    fun key => key.store = id
  /-- A purge takes away the chunks of the blob whose writers are doomed, and tells how many. -/
  purge : ∀ id doomed clock, ∃ gone left,
    s.chunks.ListsAll (fun key => key.store = id ∧ doomed key.writer = true) gone ∧
    (Client.purgeChunks id doomed).alone ⟨s, clock⟩
      = (gone.length, ⟨{ s with chunks := left }, clock⟩) ∧
    (left.name = s.chunks.name ∧ left.limit = s.chunks.limit) ∧
    ∀ key, left.find key
      = if key.store = id ∧ doomed key.writer = true then none else s.chunks.find key
  /-- The files over a blob are the committed ones among all its files. -/
  filesForStore : ∀ store found, s.files.ListsAll (fun id => id.store = store) found →
    s.filesForStore store = found.filterMap fun (_, doc) => doc.record?
  /-- A committed blob is put together from all the chunks of its writer. -/
  getStore : ∀ id m found, s.meta? id = some m →
    s.chunks.ListsAll (fun key => key.store = id ∧ key.writer = m.writer) found →
    Backend.getStore id s
      = ((readRecord id m (found.map fun (key, doc) => doc.toChunk key)).map some, s)
  /-- A read of a checksum sorts out all its chunks among all its committed blobs. -/
  matchHash : ∀ hash docs found, s.stores.ListsAll (fun id => id.hash = hash) docs →
    s.chunks.ListsAll (fun key => key.store.hash = hash) found →
    Backend.matchHash hash s
      = (.ok (readable (committed docs) (piecesOf (committed docs) found)), s)

/-- Whatever stands in the collections, the scans for a prefix miss nothing. -/
theorem prefix_scans_complete : s.PrefixScans where
  files := s.scansAll_files
  stores := s.scansAll_stores
  writer id writer :=
    ⟨s.scansAll_writer id writer, pairwise_index_lt (s.scansAll_writer id writer).listsAll⟩
  hash := s.scansAll_hash
  blob := s.scansAll_blob
  purge id doomed clock :=
    ⟨_, _, s.listsAll_doomed id doomed, alone_purgeChunks_eq id doomed ⟨s, clock⟩, ⟨rfl, rfl⟩,
      s.find_purge id doomed⟩
  filesForStore store found h := by
    rw [h.unique (s.scansAll_files store).listsAll]
    rfl
  getStore id m found hm h := by
    rw [h.unique (s.scansAll_writer id m.writer).listsAll, getStore_eq, hm]
    rfl
  matchHash hash docs found hdocs hfound := by
    rw [hdocs.unique (s.scansAll_stores hash).listsAll,
      hfound.unique (s.scansAll_hash hash).listsAll]
    exact congrArg (fun out => (out.1, out.2.state))
      (alone_matchHash_eq_readable hash ⟨s, .still 0⟩)

end ChunkedStore

end ContentVault
