import ContentVault.Proofs.Interleaving.Adding
import ContentVault.Proofs.Store.Committing
set_option autoImplicit false

/-!
# A commit that shares its reservation

When several commits are given one reservation, none of them can rely on the chunks under it:
others add some and take all away.  What one step of a commit does to a store, whatever it
meets there, is said here once.
-/

namespace ContentVault.Interleaving

open ChunkedStore

/-- A commit under a reservation that others may use as well: what is committed, and how its chunks
are written. -/
structure Attempt where
  record : ContentRecord
  lanes : UInt64
  schedule : List Nat
  length_lt : record.content.length < UInt64.size
  lanes_pos : 0 < lanes.toNat

/-- The steps of an attempt. -/
def Attempt.program (config : ChunkedConfig) (r : Reservation StoreId) (a : Attempt) :
    Client (Except StoreError Unit) :=
  commit { config with writeParallelism := a.lanes } a.schedule r a.record

/-- A commit of one byte. -/
def Attempt.ofByte (id : StoreId) (byte : UInt8) : Attempt where
  record := .fresh id [byte] "text/plain" 1
  lanes := 1
  schedule := []
  length_lt := by
    change 1 < UInt64.size
    decide
  lanes_pos := by decide

/-! ## Stages -/

/-- How far an attempt has come: it may have chunks in the store from the first that it tries to add
until it takes them away, or for good if it succeeds. -/
inductive Stage where
  | idle
  | writing (added : List (ChunkKey × ChunkDoc))
  | won

/-- The chunks that an attempt has added and not taken away: if it has won, all of its record. -/
def Stage.added (entries : List (ChunkKey × ChunkDoc)) : Stage → List (ChunkKey × ChunkDoc)
  | .idle => []
  | .writing added => added
  | .won => entries

/-- No chunk under the reservation is taken away or changed. -/
def ChunksStay (r : Reservation StoreId) (s t : ChunkedStore) : Prop :=
  ∀ key doc, key.store = r.id → key.writer = r.lease.token → s.chunks.find key = some doc →
    t.chunks.find key = some doc

theorem chunksStay_iff (r : Reservation StoreId) (s t : ChunkedStore) :
    ChunksStay r s t ↔ ∀ e ∈ s.chunks.records.entries, e.1.store = r.id →
      e.1.writer = r.lease.token → t.chunks.find e.1 = some e.2 := by
  constructor
  · rintro h ⟨key, doc⟩ he hid hwriter
    exact h key doc hid hwriter ((OrderedMap.mem_entries_iff _ key doc).mp he)
  · intro h key doc hid hwriter hfind
    exact h (key, doc) ((OrderedMap.mem_entries_iff _ key doc).mpr hfind) hid hwriter

instance (r : Reservation StoreId) (s t : ChunkedStore) : Decidable (ChunksStay r s t) :=
  decidable_of_iff _ (chunksStay_iff r s t).symm

section

variable (config : ChunkedConfig) (r : Reservation StoreId)

/-- The chunks that a record has under the reservation. -/
def chunksUnder (record : ContentRecord) : List (ChunkKey × ChunkDoc) :=
  chunkEntries r.id r.lease.token (pieces config record)

/-- What an attempt has added is of its record, and the store has it. -/
def Stage.Stored (record : ContentRecord) (s : ChunkedStore) (stage : Stage) : Prop :=
  ∀ e ∈ stage.added (chunksUnder config r record),
    e ∈ chunksUnder config r record ∧ s.chunks.find e.1 = some e.2

/-! ## What one step of an attempt does -/

/-- What a step of an attempt does to a store, and how far the attempt has come before and after. -/
inductive Move (record : ContentRecord) (s : ChunkedStore) :
    Stage → Stage → ChunkedStore → Prop where
  | look (stage : Stage) : Move record s stage stage s
  | write (stage : Stage) (chunks : Collection ChunkKey ChunkDoc)
      (added : List (ChunkKey × ChunkDoc))
      (hchunks : ∀ key doc, chunks.find key = some doc →
        s.chunks.find key = some doc ∨ (key, doc) ∈ chunksUnder config r record)
      (hadded : ∀ e ∈ added, e ∈ stage.added (chunksUnder config r record) ∨
        e ∈ chunksUnder config r record ∧ chunks.find e.1 = some e.2) :
      Move record s stage (.writing added) { s with chunks }
  | win (stage : Stage) (doc : StoreDoc) (hstorable : Storable config r.id record)
      (hall : chunksUnder config r record ⊆ stage.added (chunksUnder config r record))
      (hfree : s.meta? r.id = none) :
      Move record s stage .won
        { s with
          stores := s.stores.put r.id (doc.commit (descriptionOf config r.lease.token record)) }
  | giveUp (stage : Stage) : Move record s stage .idle (s.purged r.id (· == r.lease.token))

/-- From the stage on, every step of the program is a move, whatever it meets, and its answer finds
`post` fulfilled. -/
def Contends (record : ContentRecord) {α : Type} (post : α → Stage → Prop) :
    Client α → Stage → Prop
  | .done a, stage => post a stage
  | .ask request next, stage =>
    ∀ s : Clocked ChunkedStore, ∃ stage',
      Move config r record s.state stage stage' (request s).2.state ∧
        Contends record post (next (request s).1) stage'

/-- An attempt succeeds by winning, and fails with nothing in the store. -/
def Concluded : Except StoreError Unit → Stage → Prop
  | .ok _, stage => stage = .won
  | .error _, stage => stage = .idle

end

section

variable {config : ChunkedConfig} {r : Reservation StoreId} {record : ContentRecord} {stage : Stage}

namespace Stage.Stored

variable {s t : ChunkedStore}

theorem stay (h : stage.Stored config r record s) (hstay : ChunksStay r s t) :
    stage.Stored config r record t := by
  rintro ⟨key, doc⟩ he
  obtain ⟨hmem, hfind⟩ := h _ he
  obtain ⟨c, _, hc⟩ := List.mem_map.mp hmem
  cases hc
  exact ⟨hmem, hstay _ _ rfl rfl hfind⟩

/-- If no chunk is lost by it, a move leaves in the store what was added. -/
theorem move (h : stage.Stored config r record s) {stage' : Stage}
    (hmove : Move config r record s stage stage' t) (hstay : ChunksStay r s t) :
    stage'.Stored config r record t := by
  cases hmove with
  | look => exact h
  | write chunks added _ hadded =>
    intro e he
    rcases hadded e he with he | hnew
    · exact h.stay hstay e he
    · exact hnew
  | win doc _ hall _ => exact fun e he => h e (hall he)
  | giveUp => exact fun e he => absurd he List.not_mem_nil

end Stage.Stored

namespace Contends

variable {α β : Type}

theorem bind {post : β → Stage → Prop} {p : Client α} {f : α → Client β}
    (h : Contends config r record (fun a stage => Contends config r record post (f a) stage)
      p stage) :
    Contends config r record post (p.bind f) stage := by
  induction p generalizing stage with
  | done a => exact h
  | ask request next ih =>
    intro s
    obtain ⟨stage', hmove, hnext⟩ := h s
    exact ⟨stage', hmove, ih _ hnext⟩

/-- A step that changes nothing. -/
theorem look {post : α → Stage → Prop} {request : Atomic (Clocked ChunkedStore) β}
    {next : β → Client α} (hstate : ∀ s, (request s).2.state = s.state)
    (hnext : ∀ b, Contends config r record post (next b) stage) :
    Contends config r record post (.ask request next) stage := by
  intro s
  refine ⟨stage, ?_, hnext _⟩
  rw [hstate]
  exact .look stage

/-- A step that is carried out alone. -/
theorem request {post : α → Stage → Prop} {p : Client β} {next : β → Client α}
    (hp : ∃ action, p = .request action)
    (hnext : ∀ s, ∃ stage', Move config r record s.state stage stage' (p.alone s).2.state ∧
      Contends config r record post (next (p.alone s).1) stage') :
    Contends config r record post (p.bind next) stage := by
  obtain ⟨action, rfl⟩ := hp
  exact hnext

/-- A program that adds chunks of the record, and knows of no other than it has added. -/
theorem of_adds {fulfilled : α → List (ChunkKey × ChunkDoc) → Prop} {post : α → Stage → Prop}
    {p : Client α} {added : List (ChunkKey × ChunkDoc)}
    (hp : Adds (chunksUnder config r record) fulfilled added p)
    (hpost : ∀ a stage, fulfilled a (stage.added (chunksUnder config r record)) → post a stage)
    (hstage : stage.added (chunksUnder config r record) = added) :
    Contends config r record post p stage := by
  induction hp generalizing stage with
  | done a h => exact hpost a stage (hstage ▸ h)
  | @insert added key doc next hmem _ _ ihok iherror =>
    refine Contends.request ⟨_, rfl⟩ fun s => ?_
    rw [alone_insertChunk]
    have hchunks : ∀ key' doc', (s.state.chunks.insert key doc).2.find key' = some doc' →
        s.state.chunks.find key' = some doc' ∨ (key', doc') ∈ chunksUnder config r record := by
      intro key' doc' hfind
      rcases Collection.find_of_find_insert hfind with hold | hnew
      · exact Or.inl hold
      · exact Or.inr (hnew ▸ hmem)
    cases hinsert : (s.state.chunks.insert key doc).1 with
    | ok _ =>
      refine ⟨.writing ((key, doc) :: added), .write stage _ _ hchunks fun e he => ?_, ihok rfl⟩
      rcases List.mem_cons.mp he with rfl | he
      · exact Or.inr ⟨hmem, Collection.find_of_insert_eq_ok hinsert⟩
      · exact Or.inl (hstage ▸ he)
    | error e =>
      refine ⟨.writing added, .write stage _ _ hchunks fun e he => ?_, iherror e rfl⟩
      exact Or.inl (hstage ▸ he)

end Contends

theorem contends_abandon (e : StoreError) :
    Contends config r record Concluded (abandon r.id r.lease.token e) stage :=
  fun _ => ⟨.idle, .giveUp stage, rfl⟩

/-- Only who has added all chunks may win. -/
theorem contends_commitMeta (hstorable : Storable config r.id record)
    (hall : chunksUnder config r record ⊆ stage.added (chunksUnder config r record)) :
    Contends config r record Concluded
      (commitMeta r (descriptionOf config r.lease.token record)) stage := by
  refine Contends.request ⟨_, rfl⟩ fun s => ?_
  rcases alone_updateStore_cases s r.id (fun now doc => doc.isHeldBy r.lease.token now)
      (·.commit (descriptionOf config r.lease.token record))
    with ⟨_, h⟩ | ⟨doc, hfind, ⟨_, h⟩ | ⟨_, _, h⟩ | ⟨hheld, _, h⟩⟩
  · rw [h]
    exact ⟨stage, .look stage, contends_abandon _⟩
  · rw [h]
    exact ⟨stage, .look stage, contends_abandon _⟩
  · rw [h]
    exact ⟨stage, .look stage, contends_abandon _⟩
  · rw [h]
    exact ⟨.won, .win stage doc hstorable hall (meta?_of_isHeldBy hfind hheld), rfl⟩

theorem contends_store {lanes : UInt64} {schedule : List Nat} (hid : record.id = r.id)
    (hlength : record.content.length < UInt64.size) (hlanes : 0 < lanes.toNat) :
    Contends config r record Concluded
      (store { config with writeParallelism := lanes } schedule r record) .idle := by
  rw [store]
  split
  · exact rfl
  next cut hsplit =>
    have hstorable : Storable config record.id record := .of_split hsplit hlength
    rw [hid] at hstorable
    have hpieces : pieces config record = cut := pieces_eq hsplit
    have hadds := adds_writeChunks_of_pos hlanes schedule r.id r.lease.token cut
    rw [← hpieces] at hadds ⊢
    refine Contends.bind (.of_adds hadds (fun written stage hwritten => ?_) rfl)
    cases written with
    | error e => exact contends_abandon e
    | ok _ => exact contends_commitMeta hstorable (hwritten rfl)

/-- An attempt is idle until it writes. -/
theorem Attempt.contends (a : Attempt) :
    Contends config r a.record Concluded (a.program config r) .idle := by
  rw [Attempt.program, commit]
  split
  · exact rfl
  next hid =>
    refine Contends.look (fun _ => rfl) fun found => ?_
    cases found with
    | none => exact rfl
    | some doc =>
      refine Contends.look (fun _ => rfl) fun now => ?_
      change Contends config r a.record Concluded
        (if doc.isHeldBy r.lease.token now then _ else _) .idle
      split
      · exact contends_store (not_not.mp hid) a.length_lt a.lanes_pos
      · exact rfl

end

end ContentVault.Interleaving
