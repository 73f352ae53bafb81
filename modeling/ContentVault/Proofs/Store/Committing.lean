import ContentVault.Proofs.Store.Operations
import Mathlib.Logic.Function.Basic
set_option autoImplicit false

/-!
# Committing a blob, seen as setting a slot

A commit that is carried out alone finds no chunks of its own, writes them all and marks the
record; if the lease does not hold or something is refused, it takes away what it wrote and
nothing else.
-/

namespace ContentVault

namespace ChunkedStore

/-- A record that is cut into pieces can be kept under its identifier. -/
theorem Storable.of_split {config : ChunkedConfig} {record : ContentRecord} {cut : List Chunk}
    (hsplit : Chunk.split record.content config.chunkSize.toNat = .ok cut)
    (hlength : record.content.length < UInt64.size) : Storable config record.id record := by
  refine ⟨rfl, ?_, hlength⟩
  unfold pieces
  rw [hsplit]
  exact .of_split hsplit

theorem pieces_eq {config : ChunkedConfig} {record : ContentRecord} {cut : List Chunk}
    (hsplit : Chunk.split record.content config.chunkSize.toNat = .ok cut) :
    pieces config record = cut := by
  unfold pieces
  rw [hsplit]

namespace Represents

variable {s : ChunkedStore} {m : MemoryStore} {writer : StoreId → UInt64}

/-- A slot is set to a committed record whose chunks are there. -/
theorem put_committed (h : Represents s m writer) {id : StoreId} {record : ContentRecord}
    (hstorable : Storable s.config id record) (token : UInt64)
    {chunks : Collection ChunkKey ChunkDoc}
    (hothers : ∀ key, key.store ≠ id → chunks.find key = s.chunks.find key)
    (hown : ∀ key doc, key.store = id → (chunks.find key = some doc ↔
      (key, doc) ∈ chunkEntries id token (pieces s.config record))) :
    Represents
      { s with
        stores := s.stores.put id ⟨id, none, some (descriptionOf s.config token record)⟩
        chunks }
      { m with stores := m.stores.insert id (.committed record) }
      (Function.update writer id token) := by
  refine ⟨fun id' => ?_, fun key doc => ?_, h.files, fun id' record' hrecord' => ?_⟩
  · change (s.stores.put id _).find id' = ((m.stores.insert id _).get? id').map _
    rw [Collection.find_put, OrderedMap.get?_insert]
    by_cases hid : id' = id
    · rw [if_pos hid, if_pos hid, hid, Function.update_self]
      rfl
    · rw [if_neg hid, if_neg hid, Function.update_of_ne hid, h.stores]
  · change chunks.find key = some doc ↔ ∃ record', SlotMap.record?
      (m.stores.insert id (.committed record)) key.store = some record' ∧ _
    rw [SlotMap.record?_insert]
    by_cases hid : key.store = id
    · rw [hown key doc hid, if_pos hid, hid, Function.update_self]
      constructor
      · intro hmem
        exact ⟨record, rfl, hmem⟩
      · rintro ⟨record', hrecord', hmem⟩
        cases hrecord'
        exact hmem
    · rw [hothers key hid, if_neg hid, Function.update_of_ne hid]
      exact h.chunks key doc
  · change SlotMap.record? (m.stores.insert id (.committed record)) id' = some record' at hrecord'
    rw [SlotMap.record?_insert] at hrecord'
    by_cases hid : id' = id
    · rw [if_pos hid] at hrecord'
      cases hrecord'
      rw [hid]
      exact hstorable
    · rw [if_neg hid] at hrecord'
      exact h.storable id' record' hrecord'

/-! ## Changing the status -/

/-- A record with another status is kept in the same chunks. -/
theorem put_status (h : Represents s m writer) {id : StoreId} {record : ContentRecord}
    (hrecord : m.stores.record? id = some record) (status : Status) :
    Represents
      { s with
        stores := s.stores.put id
          ⟨id, none, some { descriptionOf s.config (writer id) record with status }⟩ }
      { m with stores := m.stores.insert id (.committed { record with status }) } writer := by
  have hstorable := h.storable id record hrecord
  have hstatus : Storable s.config id { record with status } :=
    ⟨hstorable.id_eq, hstorable.cut, hstorable.length_lt⟩
  have hothers : ∀ key : ChunkKey, key.store ≠ id → s.chunks.find key = s.chunks.find key :=
    fun _ _ => rfl
  have hput := h.put_committed hstatus (writer id) hothers fun key doc hkey => ?_
  · rw [Function.update_eq_self] at hput
    exact hput
  · subst hkey
    exact h.find_chunk_iff hrecord doc

theorem updateStatus (h : Represents s m writer) (hconfig : Usable s.config) (id : StoreId)
    (status : Status) :
    Follows Models s ((ChunkedStore.updateStatus id status).unclocked s)
      (Backend.updateStatus id status m) := by
  change Follows Models s _ (m.updateStatus id status)
  unfold ChunkedStore.updateStatus Client.unclocked MemoryStore.updateStatus SlotMap.replace
  rw [Client.alone_bind]
  have hfind := h.stores id
  rcases alone_updateStore_cases ⟨s, .still 0⟩ id (fun _ doc => doc.record?.isSome)
      (fun doc => { doc with record? := doc.record?.map fun m => { m with status } })
    with ⟨hnone, hup⟩ | ⟨doc, hdoc, hcases⟩
  · rw [hnone, eq_comm, Option.map_eq_none_iff] at hfind
    have hrecord : m.stores.record? id = none := SlotMap.record?_of_free hfind
    simp only [hup, hrecord]
    exact Or.inr ⟨rfl, hconfig, writer, h⟩
  · rw [hdoc, eq_comm, Option.map_eq_some_iff] at hfind
    obtain ⟨slot, hslot, rfl⟩ := hfind
    cases slot with
    | reserved lease =>
      have hrecord : m.stores.record? id = none := SlotMap.record?_of_get? hslot
      rcases hcases with ⟨_, hup⟩ | ⟨hacc, _⟩ | ⟨hacc, _⟩
      · simp only [hup, hrecord]
        exact Or.inr ⟨rfl, hconfig, writer, h⟩
      · cases hacc
      · cases hacc
    | committed record =>
      have hrecord : m.stores.record? id = some record := SlotMap.record?_of_get? hslot
      rcases hcases with ⟨hacc, _⟩ | ⟨_, _, hup⟩ | ⟨_, _, hup⟩
      · cases hacc
      · simp only [hup]
        exact Or.inl ⟨_, rfl, rfl⟩
      · simp only [hup, hrecord]
        exact Or.inr ⟨rfl, hconfig, writer, h.put_status hrecord status⟩

/-! ## Committing -/

/-- Taking away what was written under a lease leaves the store as it was. -/
theorem purged_filling (h : Represents s m writer) {id : StoreId}
    (hnone : m.stores.record? id = none) {token : UInt64} {cut : List Chunk}
    {pending : List (ChunkKey × ChunkDoc)} {failed : Prop}
    {chunks : Collection ChunkKey ChunkDoc}
    (hfilling : Filling s.chunks (chunkEntries id token cut) pending failed chunks) :
    ({ s with chunks } : ChunkedStore).purged id (· == token) = s := by
  have hchunks : (({ s with chunks } : ChunkedStore).purged id (· == token)).chunks = s.chunks := by
    refine Collection.ext_find hfilling.name_eq hfilling.limit_eq fun key => ?_
    refine (find_purge { s with chunks } id (· == token) key).trans ?_
    split
    next hkey => rw [h.find_chunk_eq_none (hkey.1 ▸ hnone)]
    next hkey =>
      refine hfilling.others key fun e he heq => hkey ?_
      obtain ⟨c, _, rfl⟩ := List.mem_map.mp he
      rw [← heq]
      exact ⟨rfl, beq_self_eq_true token⟩
  change ({ s with
    chunks := (({ s with chunks } : ChunkedStore).purged id (· == token)).chunks } : ChunkedStore)
      = s
  rw [hchunks]

/-- When everything was written, the chunks of the blob are those of its pieces. -/
theorem find_filled (h : Represents s m writer) {id : StoreId}
    (hnone : m.stores.record? id = none) {token : UInt64} {cut : List Chunk}
    {chunks : Collection ChunkKey ChunkDoc}
    (hfilling : Filling s.chunks (chunkEntries id token cut) [] False chunks) (key : ChunkKey)
    (doc : ChunkDoc) (hkey : key.store = id) :
    chunks.find key = some doc ↔ (key, doc) ∈ chunkEntries id token cut := by
  have hpresent : ∀ e ∈ chunkEntries id token cut, chunks.find e.1 = some e.2 := by
    intro e he
    rcases hfilling.present e he with hfind | ⟨_, hpending | hfailed⟩
    · exact hfind
    · cases hpending
    · exact hfailed.elim
  constructor
  · intro hfind
    by_cases hentry : ∃ e ∈ chunkEntries id token cut, e.1 = key
    · obtain ⟨e, he, rfl⟩ := hentry
      rw [hpresent e he] at hfind
      cases hfind
      exact he
    · have hother : chunks.find key = s.chunks.find key :=
        hfilling.others key fun e he heq => hentry ⟨e, he, heq⟩
      rw [hother, h.find_chunk_eq_none (hkey ▸ hnone)] at hfind
      cases hfind
  · intro hmem
    exact hpresent (key, doc) hmem

end Represents

/-- A commit of slots at a reading of the clock. -/
def commitAt (now : UInt64) (r : Reservation StoreId) (record : ContentRecord) :
    Atomic MemoryStore (Except StoreError Unit) :=
  Atomic.standing now (MemoryStore.commitStore · r record)

/-- The clock shows the reading when it is looked at for the first or the second time. -/
def Shows (clock : Clock) (now : UInt64) : Prop :=
  now = clock.read.1 ∨ now = clock.read.2.read.1

theorem Shows.eq_of_still {now now' : UInt64} (h : Shows (.still now) now') : now' = now := by
  rcases h with h | h
  · exact h
  · exact h

section

variable {r : Reservation StoreId} {record : ContentRecord} {m : MemoryStore} {now : UInt64}

theorem commitAt_eq (now : UInt64) (r : Reservation StoreId) (record : ContentRecord)
    (m : MemoryStore) :
    commitAt now r record m
      = if record.id = r.id then
          ((m.stores.commit r record now).1,
            { m with stores := (m.stores.commit r record now).2 })
        else (.error (r.mismatch record.id), m) := by
  unfold commitAt Atomic.standing MemoryStore.commitStore
  by_cases hid : record.id = r.id
  · simp only [hid, ne_eq, not_true_eq_false, if_true, if_false, Clock.read_still]
  · simp only [hid, ne_eq, not_false_eq_true, if_true, if_false]

theorem commitAt_of_ne (hid : record.id ≠ r.id) :
    commitAt now r record m = (.error (r.mismatch record.id), m) := by
  rw [commitAt_eq, if_neg hid]

theorem commitAt_of_held (hid : record.id = r.id)
    (hheld : (m.stores.get? r.id).any (·.isHeldBy r.lease.token now) = true) :
    commitAt now r record m
      = (.ok (), { m with stores := m.stores.insert r.id (.committed record) }) := by
  rw [commitAt_eq, if_pos hid, SlotMap.commit_of_held hheld]

theorem commitAt_of_not_held (hid : record.id = r.id)
    (hheld : (m.stores.get? r.id).any (·.isHeldBy r.lease.token now) = false) :
    commitAt now r record m = (.error r.notReserved, m) := by
  rw [commitAt_eq, if_pos hid, SlotMap.commit_of_not_held hheld]

end

/-- The document of a record that is committed in so many chunks. -/
def committedDoc (r : Reservation StoreId) (record : ContentRecord) (count : Nat) : StoreDoc :=
  ⟨r.id, none, some (metaOf record count r.lease.token)⟩

/-- What is too large about a record: the number of its chunks, one of them, or its document. -/
inductive Refuses (s : ChunkedStore) (r : Reservation StoreId) (record : ContentRecord) :
    StoreError → Prop where
  | count {e : CodecError} (h : Chunk.split record.content s.config.chunkSize.toNat = .error e) :
    Refuses s r record (.ofCodec e)
  | chunk {cut : List Chunk} {e : StoreError}
    (h : Chunk.split record.content s.config.chunkSize.toNat = .ok cut)
    (he : TooLarge s.chunks (chunkEntries r.id r.lease.token cut) e) : Refuses s r record e
  | document {cut : List Chunk}
    (h : Chunk.split record.content s.config.chunkSize.toNat = .ok cut)
    (hlt : s.stores.limit < encodedSize (committedDoc r record cut.length)) :
    Refuses s r record (s.stores.tooLarge (committedDoc r record cut.length))

theorem Refuses.isRefusal {s : ChunkedStore} {r : Reservation StoreId} {record : ContentRecord}
    {e : StoreError} (h : Refuses s r record e) (hconfig : Usable s.config) :
    e.isRefusal = true := by
  cases h with
  | count hsplit =>
    have hsize : s.config.chunkSize.toNat ≠ 0 := fun hzero =>
      hconfig.chunkSize_ne (UInt64.toNat_inj.mp hzero)
    rw [(Chunk.split_error hsize hsplit).1]
    rfl
  | chunk _ he => exact he.isRefusal
  | document _ _ => rfl

/-- The store that a committed record leaves. -/
structure Takes (s : ChunkedStore) (m : MemoryStore) (r : Reservation StoreId)
    (record : ContentRecord) (after : ChunkedStore) : Prop where
  fits : ∃ cut, Chunk.split record.content s.config.chunkSize.toNat = .ok cut ∧
    (∀ entry ∈ chunkEntries r.id r.lease.token cut, encodedSize entry.2 ≤ s.chunks.limit) ∧
    encodedSize (committedDoc r record cut.length) ≤ s.stores.limit
  models : Models after { m with stores := m.stores.insert r.id (.committed record) }
  /-- The chunks of other blobs stay. -/
  others : ∀ key : ChunkKey, key.store ≠ r.id → after.chunks.find key = s.chunks.find key

/-- How a commit of a blob ends, by whether the lease is held at a reading of the clock. -/
abbrev Ends (s : ChunkedStore) (m : MemoryStore) (r : Reservation StoreId) (record : ContentRecord)
    (now : UInt64) : Except StoreError Unit × ChunkedStore → Prop :=
  Ending r record.id (m.stores.holds r now) s (Refuses s r record) (Takes s m r record)

/-- However a commit ends, the slots end likewise, unless something is refused. -/
theorem follows_of_ends {s : ChunkedStore} {m : MemoryStore} (h : Models s m)
    {r : Reservation StoreId} {record : ContentRecord} {now : UInt64}
    {out : Except StoreError Unit × ChunkedStore} (hends : Ends s m r record now out) :
    Follows Models s out (commitAt now r record m) := by
  cases hends with
  | mismatch hid =>
    rw [commitAt_of_ne hid]
    exact Or.inr ⟨rfl, h⟩
  | notReserved hid hheld =>
    rw [commitAt_of_not_held hid hheld]
    exact Or.inr ⟨rfl, h⟩
  | refused _ _ he => exact Or.inl ⟨_, he.isRefusal h.1, rfl⟩
  | taken hid hheld hafter =>
    rw [commitAt_of_held hid hheld]
    exact Or.inr ⟨rfl, hafter.models⟩

namespace Represents

variable {s : ChunkedStore} {m : MemoryStore} {writer : StoreId → UInt64}

section

variable {r : Reservation StoreId} {record : ContentRecord} {cut : List Chunk}
  {chunks : Collection ChunkKey ChunkDoc}

/-- Giving a commit up leaves the store as it was before anything was written. -/
theorem abandon (h : Represents s m writer) (hnone : m.stores.record? r.id = none)
    {pending : List (ChunkKey × ChunkDoc)} {failed : Prop}
    (hfilling : Filling s.chunks (chunkEntries r.id r.lease.token cut) pending failed chunks)
    (e : StoreError) (clock : Clock) :
    (ChunkedStore.abandon r.id r.lease.token e).alone ⟨{ s with chunks }, clock⟩
      = (.error e, ⟨s, clock⟩) := by
  unfold ChunkedStore.abandon
  simp only [Client.alone_bind, Client.alone_pure, alone_purgeChunks,
    h.purged_filling hnone hfilling]

/-- When all chunks are written, marking the record commits it if the lease still holds. -/
theorem commitMeta (h : Represents s m writer) (hconfig : Usable s.config)
    (hid : record.id = r.id) (hlength : record.content.length < UInt64.size)
    (hsplit : Chunk.split record.content s.config.chunkSize.toNat = .ok cut)
    (hnone : m.stores.record? r.id = none)
    {slot : Slot ContentRecord} (hslot : m.stores.get? r.id = some slot)
    (hfilled : Filling s.chunks (chunkEntries r.id r.lease.token cut) [] False chunks)
    (clock : Clock) :
    ∃ clock' out,
      (ChunkedStore.commitMeta r (metaOf record cut.length r.lease.token)).alone
        ⟨{ s with chunks }, clock⟩ = (out.1, ⟨out.2, clock'⟩) ∧
      Ends s m r record clock.read.1 out := by
  have hfind : s.stores.find r.id
      = some (slot.toEntry (descriptionOf s.config (writer r.id)) r.id) := by
    rw [h.stores, hslot]
    rfl
  have hheld : ∀ now, (slot.toEntry (descriptionOf s.config (writer r.id)) r.id).isHeldBy
      r.lease.token now = m.stores.holds r now := by
    intro now
    rw [SlotMap.holds, hslot]
    exact Entry.isHeldBy_toEntry _ _ _ _ _
  have hentry : (slot.toEntry (descriptionOf s.config (writer r.id)) r.id).commit
      (metaOf record cut.length r.lease.token) = committedDoc r record cut.length :=
    Entry.commit_toEntry _ _ _ _
  unfold ChunkedStore.commitMeta
  rw [Client.alone_bind]
  rcases alone_updateStore_cases ⟨{ s with chunks }, clock⟩ r.id
      (fun now doc => doc.isHeldBy r.lease.token now)
      (·.commit (metaOf record cut.length r.lease.token))
    with ⟨hmissing, _⟩ | ⟨doc, hdoc, hcases⟩
  · cases hfind.symm.trans hmissing
  · cases hfind.symm.trans hdoc
    rw [hheld, hentry] at hcases
    rcases hcases with ⟨hacc, hup⟩ | ⟨hacc, hlt, hup⟩ | ⟨hacc, hle, hup⟩
    · rw [hup]
      exact ⟨clock.read.2, (.error r.notReserved, s), h.abandon hnone hfilled _ _,
        .notReserved hid hacc⟩
    · rw [hup]
      exact ⟨clock.read.2, (.error _, s), h.abandon hnone hfilled _ _,
        .refused hid hacc (.document hsplit hlt)⟩
    · rw [hup]
      have hstorable : Storable s.config r.id record := hid ▸ Storable.of_split hsplit hlength
      have hothers : ∀ key : ChunkKey, key.store ≠ r.id → chunks.find key = s.chunks.find key := by
        intro key hkey
        refine hfilled.others key fun e he heq => hkey ?_
        obtain ⟨c, _, rfl⟩ := List.mem_map.mp he
        rw [← heq]
      have hrepresents := h.put_committed hstorable r.lease.token hothers
        (pieces_eq hsplit ▸ h.find_filled hnone hfilled)
      rw [descriptionOf, pieces_eq hsplit] at hrepresents
      have hsmall : ∀ entry ∈ chunkEntries r.id r.lease.token cut,
          encodedSize entry.2 ≤ s.chunks.limit := fun entry hentry =>
        (hfilled.small entry hentry).resolve_right (by rintro (hpending | ⟨⟨⟩⟩); cases hpending)
      exact ⟨clock.read.2, (.ok (), _), rfl,
        .taken hid hacc ⟨⟨cut, hsplit, hsmall, hle⟩, ⟨hconfig, _, hrepresents⟩, hothers⟩⟩

end

/-- Writing the chunks of a record and marking it, while the blob is reserved.  The lease held when
the clock was looked at before. -/
theorem store (h : Represents s m writer) (hconfig : Usable s.config) (schedule : List Nat)
    (r : Reservation StoreId) (record : ContentRecord) (hid : record.id = r.id)
    (hlength : record.content.length < UInt64.size) (hnone : m.stores.record? r.id = none)
    {slot : Slot ContentRecord} (hslot : m.stores.get? r.id = some slot) {first : UInt64}
    (hfirst : m.stores.holds r first = true) (clock : Clock) :
    ∃ clock' now out, (now = first ∨ now = clock.read.1) ∧
      (ChunkedStore.store s.config schedule r record).alone ⟨s, clock⟩
        = (out.1, ⟨out.2, clock'⟩) ∧
      Ends s m r record now out := by
  unfold ChunkedStore.store
  cases hsplit : Chunk.split record.content s.config.chunkSize.toNat with
  | error e =>
    exact ⟨clock, first, (_, s), Or.inl rfl, rfl, .refused hid hfirst (.count hsplit)⟩
  | ok cut =>
    have hparallelism : 0 < s.config.writeParallelism.toNat := Nat.pos_of_ne_zero fun hzero =>
      hconfig.lanes_ne (UInt64.toNat_inj.mp hzero)
    obtain ⟨result, chunks, hwrite, hfilling, hrefused⟩ :=
      alone_writeChunks hparallelism schedule r.id r.lease.token
        (Chunk.IsCut.of_split hsplit).numbered ⟨s, clock⟩
        (fun key hkey _ => h.find_chunk_eq_none (hkey ▸ hnone))
    simp only [Client.alone_bind, hwrite]
    cases result with
    | error e =>
      exact ⟨clock, first, (.error e, s), Or.inl rfl, h.abandon hnone hfilling e clock,
        .refused hid hfirst (.chunk hsplit (hrefused e rfl))⟩
    | ok _ =>
      obtain ⟨clock', out, hmeta, hends⟩ := h.commitMeta hconfig hid hlength hsplit hnone hslot
        (hfilling.weaken fun ⟨e, he⟩ => by cases he) clock
      exact ⟨clock', clock.read.1, out, Or.inr rfl, hmeta, hends⟩

/-- A commit that is carried out alone ends as the lease is held at one of the two readings of the
clock. -/
theorem commit_ends (h : Represents s m writer) (hconfig : Usable s.config) (schedule : List Nat)
    (r : Reservation StoreId) (record : ContentRecord)
    (hlength : record.content.length < UInt64.size) (clock : Clock) :
    ∃ clock' now out, Shows clock now ∧
      (ChunkedStore.commit s.config schedule r record).alone ⟨s, clock⟩
        = (out.1, ⟨out.2, clock'⟩) ∧
      Ends s m r record now out := by
  unfold ChunkedStore.commit
  by_cases hid : record.id = r.id
  · rw [if_neg (not_not.mpr hid)]
    simp only [Client.alone_bind, alone_findStore, h.stores]
    cases hslot : m.stores.get? r.id with
    | none =>
      have hheld : m.stores.holds r clock.read.1 = false := by
        rw [SlotMap.holds, hslot]
        rfl
      exact ⟨clock, clock.read.1, (.error r.notReserved, s), Or.inl rfl, rfl,
        .notReserved hid hheld⟩
    | some slot =>
      have hany : m.stores.holds r clock.read.1 = slot.isHeldBy r.lease.token clock.read.1 := by
        rw [SlotMap.holds, hslot]
        rfl
      simp only [Option.map_some, Client.alone_bind, alone_readClock, Entry.isHeldBy_toEntry]
      by_cases hheld : slot.isHeldBy r.lease.token clock.read.1 = true
      · simp only [hheld, if_true]
        have hnone : m.stores.record? r.id = none := by
          refine SlotMap.record?_eq_none fun record' hget => ?_
          rw [hslot] at hget
          cases hget
          cases hheld
        obtain ⟨clock', now, out, hnow, hstore, hends⟩ :=
          h.store hconfig schedule r record hid hlength hnone hslot (hany.trans hheld)
            clock.read.2
        exact ⟨clock', now, out, hnow, hstore, hends⟩
      · rw [Bool.not_eq_true] at hheld
        simp only [hheld, Bool.false_eq_true, if_false]
        exact ⟨clock.read.2, clock.read.1, (.error r.notReserved, s), Or.inl rfl, rfl,
          .notReserved hid (hany.trans hheld)⟩
  · rw [if_pos hid]
    exact ⟨clock, clock.read.1, (.error (r.mismatch record.id), s), Or.inl rfl, rfl,
      .mismatch hid⟩

/-- A commit carried out alone is a commit of the slot, at one of the two readings of the clock. -/
theorem commit (h : Represents s m writer) (hconfig : Usable s.config) (schedule : List Nat)
    (r : Reservation StoreId) (record : ContentRecord)
    (hlength : record.content.length < UInt64.size) (clock : Clock) :
    ∃ clock' now out, Shows clock now ∧
      (ChunkedStore.commit s.config schedule r record).alone ⟨s, clock⟩
        = (out.1, ⟨out.2, clock'⟩) ∧
      Follows Models s out (commitAt now r record m) := by
  obtain ⟨clock', now, out, hshows, hcommit, hends⟩ :=
    h.commit_ends hconfig schedule r record hlength clock
  exact ⟨clock', now, out, hshows, hcommit, follows_of_ends ⟨hconfig, writer, h⟩ hends⟩

end Represents

end ChunkedStore

end ContentVault
