import ContentVault.Proofs.Store.Room
set_option autoImplicit false

/-!
# How many lanes there are

Of the settings of a chunked store, only a commit reads the number of lanes.  Under a writer who
has no chunks yet, and with room for every chunk, no lane fails, whatever turns the lanes take;
what they have written in the end is the same for any number of lanes.
-/

namespace ContentVault

/-- The same settings with another number of lanes. -/
def ChunkedConfig.withLanes (config : ChunkedConfig) (lanes : UInt64) : ChunkedConfig :=
  { config with writeParallelism := lanes }

namespace ChunkedStore

/-- The same documents under settings with another number of lanes. -/
def withLanes (s : ChunkedStore) (lanes : UInt64) : ChunkedStore :=
  { s with config := s.config.withLanes lanes }

/-! ## Programs that do not read the settings -/

/-- The program comes to the same under any number of lanes. -/
def IgnoresLanes {α : Type} (p : Client α) : Prop :=
  ∀ (s : Clocked ChunkedStore) (lanes : UInt64),
    p.alone ⟨s.state.withLanes lanes, s.clock⟩
      = ((p.alone s).1, ⟨(p.alone s).2.state.withLanes lanes, (p.alone s).2.clock⟩)

namespace IgnoresLanes

variable {α β : Type}

theorem pure (a : α) : IgnoresLanes (pure a : Client α) := fun _ _ => rfl

theorem bind {p : Client α} {f : α → Client β} (hp : IgnoresLanes p)
    (hf : ∀ a, IgnoresLanes (f a)) : IgnoresLanes (p >>= f) := by
  intro s lanes
  rw [Client.alone_bind, Client.alone_bind, hp]
  exact hf (p.alone s).1 (p.alone s).2 lanes

theorem unclocked {p : Client α} (hp : IgnoresLanes p) (s : ChunkedStore) (lanes : UInt64) :
    p.unclocked (s.withLanes lanes) = ((p.unclocked s).1, (p.unclocked s).2.withLanes lanes) := by
  unfold Client.unclocked
  rw [hp ⟨s, .still 0⟩ lanes]

end IgnoresLanes

theorem ignoresLanes_readClock : IgnoresLanes Client.readClock := fun _ _ => rfl

theorem ignoresLanes_findStore (id : StoreId) : IgnoresLanes (Client.findStore id) :=
  fun _ _ => rfl

theorem ignoresLanes_scanStores (start : StoreId) (keep : StoreId → Bool) :
    IgnoresLanes (Client.scanStores start keep) := fun _ _ => rfl

theorem ignoresLanes_scanChunks (start : ChunkKey) (keep : ChunkKey → Bool) :
    IgnoresLanes (Client.scanChunks start keep) := fun _ _ => rfl

theorem ignoresLanes_upsertStore (id : StoreId) (doc : StoreDoc) (replaceable : StoreDoc → Bool) :
    IgnoresLanes (Client.upsertStore id doc replaceable) := fun _ _ => rfl

theorem ignoresLanes_deleteStore (id : StoreId) (accepts : StoreDoc → Bool) :
    IgnoresLanes (Client.deleteStore id accepts) := fun _ _ => rfl

theorem ignoresLanes_insertChunk (key : ChunkKey) (doc : ChunkDoc) :
    IgnoresLanes (Client.insertChunk key doc) := fun _ _ => rfl

theorem ignoresLanes_purgeChunks (id : StoreId) (doomed : UInt64 → Bool) :
    IgnoresLanes (Client.purgeChunks id doomed) := fun _ _ => rfl

theorem ignoresLanes_updateStore (id : StoreId) (accepts : UInt64 → StoreDoc → Bool)
    (change : StoreDoc → StoreDoc) : IgnoresLanes (Client.updateStore id accepts change) := by
  intro s lanes
  unfold Client.updateStore
  rw [alone_request, alone_request]
  change (if s.state.stores.records.contains id = true then _ else _) = _
  split
  · rfl
  · rfl

theorem ignoresLanes_claim (id : StoreId) (lease : Lease) (now : UInt64) :
    IgnoresLanes (claim id lease now) := by
  refine (ignoresLanes_upsertStore id _ _).bind fun done => ?_
  rcases done with e | _ | _
  · exact .pure _
  · exact .pure _
  · exact (ignoresLanes_purgeChunks id _).bind fun _ => .pure _

theorem ignoresLanes_release (r : Reservation StoreId) : IgnoresLanes (release r) := by
  refine (ignoresLanes_deleteStore r.id _).bind fun done => ?_
  cases done with
  | false => exact .pure _
  | true => exact (ignoresLanes_purgeChunks r.id _).bind fun _ => .pure _

theorem ignoresLanes_updateStatus (id : StoreId) (status : Status) :
    IgnoresLanes (updateStatus id status) := by
  refine (ignoresLanes_updateStore id _ _).bind fun done => ?_
  rcases done with e | _ | _ <;> exact .pure _

theorem ignoresLanes_getStore (id : StoreId) : IgnoresLanes (getStore id) := by
  refine (ignoresLanes_findStore id).bind fun doc? => ?_
  cases doc?.bind (·.record?) with
  | none => exact .pure _
  | some m => exact (ignoresLanes_scanChunks _ _).bind fun _ => .pure _

theorem ignoresLanes_matchHash (hash : UInt32) : IgnoresLanes (matchHash hash) := by
  refine (ignoresLanes_scanStores _ _).bind fun docs => ?_
  dsimp only
  split
  · exact .pure _
  · exact (ignoresLanes_scanChunks _ _).bind fun _ => .pure _

/-! ### Lanes and commits whose number of lanes is given -/

theorem ignoresLanes_insertAll (entries : List (ChunkKey × ChunkDoc)) :
    IgnoresLanes (Lane.insertAll entries) := by
  induction entries with
  | nil => exact .pure _
  | cons entry entries ih =>
    refine (ignoresLanes_insertChunk entry.1 entry.2).bind fun done => ?_
    cases done with
    | error e => exact .pure _
    | ok _ => exact ih

theorem ignoresLanes_finishAll (lanes : List Lane) : IgnoresLanes (Lane.finishAll lanes) := by
  induction lanes with
  | nil => exact .pure _
  | cons lane lanes ih =>
    refine IgnoresLanes.bind ?_ fun _ => ih.bind fun _ => .pure _
    unfold Lane.finish
    split
    · exact .pure _
    · exact ignoresLanes_insertAll _

theorem ignoresLanes_follow (schedule : List Nat) (lanes : List Lane) :
    IgnoresLanes (Lane.follow schedule lanes) := by
  induction schedule generalizing lanes with
  | nil => exact .pure _
  | cons i schedule ih =>
    unfold Lane.follow
    split
    · exact ih lanes
    next lane _ =>
      refine IgnoresLanes.bind ?_ fun _ => ih _
      unfold Lane.step
      split
      · exact .pure _
      · exact (ignoresLanes_insertChunk _ _).bind fun _ => .pure _

theorem ignoresLanes_abandon (id : StoreId) (writer : UInt64) (e : StoreError) :
    IgnoresLanes (abandon id writer e) := (ignoresLanes_purgeChunks id _).bind fun _ => .pure _

theorem ignoresLanes_commit (config : ChunkedConfig) (schedule : List Nat)
    (r : Reservation StoreId) (record : ContentRecord) :
    IgnoresLanes (commit config schedule r record) := by
  have hmark : ∀ m, IgnoresLanes (commitMeta r m) := by
    intro m
    refine (ignoresLanes_updateStore r.id _ _).bind fun done => ?_
    rcases done with e | _ | _
    · exact ignoresLanes_abandon _ _ _
    · exact ignoresLanes_abandon _ _ _
    · exact .pure _
  have hstore : IgnoresLanes (store config schedule r record) := by
    unfold store
    split
    · exact .pure _
    · refine ((ignoresLanes_follow schedule _).bind fun _ => ignoresLanes_finishAll _).bind
        fun done => ?_
      cases done with
      | error e => exact ignoresLanes_abandon _ _ _
      | ok _ => exact hmark _
  unfold commit
  split
  · exact .pure _
  · refine (ignoresLanes_findStore r.id).bind fun doc? => ?_
    cases doc? with
    | none => exact .pure _
    | some doc =>
      refine ignoresLanes_readClock.bind fun now => ?_
      split
      · exact hstore
      · exact .pure _

/-! ## Lanes that cannot fail -/

section

variable {base chunks chunks' : Collection ChunkKey ChunkDoc}
  {entries : List (ChunkKey × ChunkDoc)}

/-- Once nothing is pending and nothing has failed, all entries are there. -/
theorem Filling.find_full (h : Filling base entries [] False chunks) :
    ∀ e ∈ entries, chunks.find e.1 = some e.2 := by
  intro e he
  rcases h.present e he with hfind | ⟨_, hpending | hfailed⟩
  · exact hfind
  · cases hpending
  · exact hfailed.elim

/-- What is added in full is determined by what there was and what is added. -/
theorem Filling.unique_full (h : Filling base entries [] False chunks)
    (h' : Filling base entries [] False chunks') : chunks = chunks' := by
  refine Collection.ext_find (h.name_eq.trans h'.name_eq.symm) (h.limit_eq.trans h'.limit_eq.symm)
    fun key => ?_
  by_cases hentry : ∃ e ∈ entries, e.1 = key
  · obtain ⟨e, he, rfl⟩ := hentry
    rw [h.find_full e he, h'.find_full e he]
  · have hother : ∀ e ∈ entries, e.1 ≠ key := fun e he heq => hentry ⟨e, he, heq⟩
    rw [h.others key hother, h'.others key hother]

end

/-- Nothing stands in the way of the chunks of a writer: he has none yet, and there is room for each
of them. -/
structure Unhindered (s : ChunkedStore) (id : StoreId) (writer : UInt64) (pieces : List Chunk) :
    Prop where
  numbered : Chunk.Numbered pieces
  none : ∀ key, key.store = id → key.writer = writer → s.chunks.find key = none
  small : ∀ entry ∈ chunkEntries id writer pieces, encodedSize entry.2 ≤ s.chunks.limit

namespace Unhindered

variable {s : ChunkedStore} {id : StoreId} {writer : UInt64} {pieces : List Chunk}

theorem not_tooLarge (h : Unhindered s id writer pieces) (e : StoreError) :
    ¬ TooLarge s.chunks (chunkEntries id writer pieces) e := by
  rintro ⟨entry, hentry, hlarge, _⟩
  exact absurd (h.small entry hentry) (Nat.not_le.mpr hlarge)

/-- Whatever turns the lanes take, none fails. -/
theorem failure?_eq_none (h : Unhindered s id writer pieces) {parallelism : Nat}
    (hparallelism : 0 < parallelism) (schedule : List Nat) (clock : Clock) :
    ∀ lane ∈ ((Lane.follow schedule (Lane.deal (min parallelism pieces.length)
      (chunkEntries id writer pieces))).alone ⟨s, clock⟩).1, lane.failure? = Option.none := by
  obtain ⟨lanes, chunks, hfollow, hwork⟩ :=
    alone_follow schedule ⟨s, clock⟩ (atWork_deal hparallelism h.numbered h.none)
  rw [hfollow]
  intro lane hlane
  rw [Option.eq_none_iff_forall_ne_some]
  intro e he
  exact h.not_tooLarge e (hwork.refused lane hlane e he).1

/-- Whatever turns the lanes take, all chunks are written. -/
theorem alone_writeChunks (h : Unhindered s id writer pieces) {parallelism : Nat}
    (hparallelism : 0 < parallelism) (schedule : List Nat) (clock : Clock) :
    ∃ chunks, (writeChunks parallelism schedule id writer pieces).alone ⟨s, clock⟩
        = (.ok (), ⟨{ s with chunks }, clock⟩) ∧
      Filling s.chunks (chunkEntries id writer pieces) [] False chunks := by
  obtain ⟨result, chunks, hwrite, hfilling, hrefused⟩ :=
    ChunkedStore.alone_writeChunks hparallelism schedule id writer h.numbered ⟨s, clock⟩ h.none
  cases result with
  | error e => exact absurd (hrefused e rfl) (h.not_tooLarge e)
  | ok _ => exact ⟨chunks, hwrite, hfilling.weaken fun ⟨e, he⟩ => by cases he⟩

/-- Any number of lanes and any turns come to the same. -/
theorem writeChunks_eq (h : Unhindered s id writer pieces) {parallelism parallelism' : Nat}
    (hparallelism : 0 < parallelism) (hparallelism' : 0 < parallelism')
    (schedule schedule' : List Nat) (clock : Clock) :
    (writeChunks parallelism schedule id writer pieces).alone ⟨s, clock⟩
      = (writeChunks parallelism' schedule' id writer pieces).alone ⟨s, clock⟩ := by
  obtain ⟨chunks, hwrite, hfilling⟩ := h.alone_writeChunks hparallelism schedule clock
  obtain ⟨chunks', hwrite', hfilling'⟩ := h.alone_writeChunks hparallelism' schedule' clock
  rw [hwrite, hwrite', hfilling.unique_full hfilling']

end Unhindered

/-! ## Commits -/

section

variable {s : ChunkedStore} {m : MemoryStore} {writer : StoreId → UInt64} {config : ChunkedConfig}

/-- What is not committed can be written without hindrance. -/
theorem Represents.unhindered (h : Represents s m writer) (hbare : s.bare = empty config)
    (hroom : 26 + config.chunkSize.toNat ≤ config.maxRecordBytes.toNat) {id : StoreId}
    (hnone : m.stores.record? id = none) (token : UInt64) {payload : Bytes} {pieces : List Chunk}
    (hsplit : Chunk.split payload config.chunkSize.toNat = .ok pieces) :
    Unhindered s id token pieces := by
  refine ⟨(Chunk.IsCut.of_split hsplit).numbered,
    fun key hkey _ => h.find_chunk_eq_none (hkey ▸ hnone), fun entry hentry => ?_⟩
  rw [chunks_limit_of_bare hbare]
  exact chunkEntries_small hroom (.of_split hsplit) id token entry hentry

/-- An identifier that someone holds is not committed. -/
theorem Represents.record?_of_isHeldBy (h : Represents s m writer) {id : StoreId} {doc : StoreDoc}
    (hdoc : s.stores.find id = some doc) {token now : UInt64}
    (hheld : doc.isHeldBy token now = true) : m.stores.record? id = none := by
  rw [h.stores, Option.map_eq_some_iff] at hdoc
  obtain ⟨slot, hslot, rfl⟩ := hdoc
  rw [Entry.isHeldBy_toEntry] at hheld
  refine SlotMap.record?_eq_none fun record hget => ?_
  rw [hslot] at hget
  cases hget
  cases hheld

/-- What is written and marked comes to the same in any number of lanes and any turns. -/
theorem Unhindered.store_eq {lanes lanes' : UInt64} (hlanes : lanes ≠ 0) (hlanes' : lanes' ≠ 0)
    (schedule schedule' : List Nat) {r : Reservation StoreId} {record : ContentRecord}
    (h : ∀ pieces, Chunk.split record.content config.chunkSize.toNat = .ok pieces →
      Unhindered s r.id r.lease.token pieces) (clock : Clock) :
    (store (config.withLanes lanes) schedule r record).alone ⟨s, clock⟩
      = (store (config.withLanes lanes') schedule' r record).alone ⟨s, clock⟩ := by
  have hpositive : ∀ {n : UInt64}, n ≠ 0 → 0 < n.toNat := fun hn =>
    Nat.pos_of_ne_zero fun hzero => hn (UInt64.toNat_inj.mp hzero)
  unfold store
  simp only [ChunkedConfig.withLanes]
  cases hsplit : Chunk.split record.content config.chunkSize.toNat with
  | error e => rfl
  | ok pieces =>
    simp only [Client.alone_bind]
    rw [(h pieces hsplit).writeChunks_eq (hpositive hlanes) (hpositive hlanes') schedule schedule']

/-- A commit comes to the same in any number of lanes and any turns. -/
theorem Represents.commit_eq (h : Represents s m writer) (hbare : s.bare = empty config)
    (hroom : 26 + config.chunkSize.toNat ≤ config.maxRecordBytes.toNat) {lanes lanes' : UInt64}
    (hlanes : lanes ≠ 0) (hlanes' : lanes' ≠ 0) (schedule schedule' : List Nat)
    (r : Reservation StoreId) (record : ContentRecord) (clock : Clock) :
    (ChunkedStore.commit (config.withLanes lanes) schedule r record).alone ⟨s, clock⟩
      = (ChunkedStore.commit (config.withLanes lanes') schedule' r record).alone ⟨s, clock⟩ := by
  unfold ChunkedStore.commit
  split
  · rfl
  · simp only [Client.alone_bind, alone_findStore]
    cases hdoc : s.stores.find r.id with
    | none => rfl
    | some doc =>
      simp only [Client.alone_bind, alone_readClock]
      by_cases hheld : doc.isHeldBy r.lease.token clock.read.1 = true
      · simp only [hheld, if_true]
        have hnone := h.record?_of_isHeldBy hdoc hheld
        exact Unhindered.store_eq hlanes hlanes' schedule schedule'
          (fun pieces hsplit => h.unhindered hbare hroom hnone r.lease.token hsplit) clock.read.2
      · simp only [hheld, Bool.false_eq_true, if_false]

end

end ChunkedStore

end ContentVault
