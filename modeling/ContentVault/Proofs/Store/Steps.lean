import ContentVault.Proofs.Map.Keys
import ContentVault.Proofs.Store.Collection
import ContentVault.Store.Backend
set_option autoImplicit false

/-!
# The indivisible steps of a chunked store

What a step does when it is taken alone, clock included.
-/

namespace ContentVault.ChunkedStore

/-! ## Chunks that are purged -/

/-- The chunks that are left when those of a blob are purged. -/
theorem find_purge (s : ChunkedStore) (id : StoreId) (doomed : UInt64 → Bool) (key : ChunkKey) :
    (s.chunks.deleteRangeWhere (.first id 0) (fun key => key.store == id)
        (fun key _ => doomed key.writer)).2.find key
      = if key.store = id ∧ doomed key.writer = true then none else s.chunks.find key := by
  rw [Collection.find_deleteRangeWhere (ChunkKey.isRun_store id)]
  cases s.chunks.find key with
  | none => simp
  | some doc =>
    rw [Option.filter_some]
    by_cases h : key.store = id ∧ doomed key.writer = true
    · rw [if_pos h, if_neg]
      simp [h]
    · have hkept : (key.store == id && doomed key.writer) = false := by
        rw [← Bool.not_eq_true, Bool.and_eq_true, beq_iff_eq]
        exact h
      rw [if_neg h, if_pos]
      rw [hkept]
      rfl

/-! ## Programs that are carried out alone -/

theorem Client.alone_bind {α β : Type} (p : Client α) (f : α → Client β)
    (s : Clocked ChunkedStore) :
    (p >>= f).alone s = (f (p.alone s).1).alone (p.alone s).2 := Program.run_bind _ p f s

@[simp] theorem Client.alone_pure {α : Type} (a : α) (s : Clocked ChunkedStore) :
    Client.alone (pure a) s = (a, s) := rfl

section

variable (s : Clocked ChunkedStore)

/-- A program that puts one request is carried out by answering it. -/
theorem alone_request {α : Type} (action : Atomic (Clocked ChunkedStore) α) :
    Client.alone (.request action) s = action s := rfl

@[simp] theorem alone_readClock :
    Client.readClock.alone s = (s.clock.read.1, ⟨s.state, s.clock.read.2⟩) := rfl

@[simp] theorem alone_findStore (id : StoreId) :
    (Client.findStore id).alone s = (s.state.stores.find id, s) := rfl

@[simp] theorem alone_scanStores (start : StoreId) (keep : StoreId → Bool) :
    (Client.scanStores start keep).alone s = (s.state.stores.scanFrom start keep, s) := rfl

@[simp] theorem alone_scanChunks (start : ChunkKey) (keep : ChunkKey → Bool) :
    (Client.scanChunks start keep).alone s = (s.state.chunks.scanFrom start keep, s) := rfl

@[simp] theorem alone_upsertStore (id : StoreId) (doc : StoreDoc)
    (replaceable : StoreDoc → Bool) :
    (Client.upsertStore id doc replaceable).alone s
      = ((s.state.stores.upsertIf id doc replaceable).1,
        { s with state :=
          { s.state with stores := (s.state.stores.upsertIf id doc replaceable).2 } }) := rfl

@[simp] theorem alone_deleteStore (id : StoreId) (accepts : StoreDoc → Bool) :
    (Client.deleteStore id accepts).alone s
      = ((s.state.stores.deleteIf id accepts).1,
        { s with state := { s.state with stores := (s.state.stores.deleteIf id accepts).2 } }) :=
  rfl

@[simp] theorem alone_insertChunk (key : ChunkKey) (doc : ChunkDoc) :
    (Client.insertChunk key doc).alone s
      = ((s.state.chunks.insert key doc).1,
        { s with state := { s.state with chunks := (s.state.chunks.insert key doc).2 } }) := rfl

/-- The store without the chunks of a blob whose writers are doomed. -/
def purged (s : ChunkedStore) (id : StoreId) (doomed : UInt64 → Bool) : ChunkedStore :=
  { s with
    chunks := (s.chunks.deleteRangeWhere (.first id 0) (fun key => key.store == id)
      (fun key _ => doomed key.writer)).2 }

/-- How many chunks are purged is of no interest to anyone. -/
theorem alone_purgeChunks (id : StoreId) (doomed : UInt64 → Bool) :
    ((Client.purgeChunks id doomed).alone s).2 = { s with state := s.state.purged id doomed } := rfl

end

/-- The clock is looked at if there is a document; the change is made if the document is accepted
at that reading and the changed one is within the limit. -/
theorem alone_updateStore_cases (s : Clocked ChunkedStore) (id : StoreId)
    (accepts : UInt64 → StoreDoc → Bool) (change : StoreDoc → StoreDoc) :
    (s.state.stores.find id = none ∧
      (Client.updateStore id accepts change).alone s = (.ok false, s)) ∨
    ∃ doc, s.state.stores.find id = some doc ∧
      ((accepts s.clock.read.1 doc = false ∧
          (Client.updateStore id accepts change).alone s
            = (.ok false, ⟨s.state, s.clock.read.2⟩)) ∨
        (accepts s.clock.read.1 doc = true ∧
          s.state.stores.limit < encodedSize (change doc) ∧
          (Client.updateStore id accepts change).alone s
            = (.error (s.state.stores.tooLarge (change doc)), ⟨s.state, s.clock.read.2⟩)) ∨
        (accepts s.clock.read.1 doc = true ∧
          encodedSize (change doc) ≤ s.state.stores.limit ∧
          (Client.updateStore id accepts change).alone s
            = (.ok true,
              ⟨{ s.state with stores := s.state.stores.put id (change doc) },
                s.clock.read.2⟩))) := by
  rw [Client.updateStore, alone_request, Collection.contains_eq]
  cases hfind : s.state.stores.find id with
  | none => exact Or.inl ⟨rfl, rfl⟩
  | some doc =>
    refine Or.inr ⟨doc, rfl, ?_⟩
    rw [Option.isSome_some, if_pos rfl]
    rcases s.state.stores.updateIf_cases id (accepts s.clock.read.1) change
      with ⟨hany, h⟩ | ⟨doc', hfind', hacc, hlt, h⟩ | ⟨doc', hfind', hacc, hle, h⟩
    · rw [hfind] at hany
      simp only [h]
      exact Or.inl ⟨hany, trivial⟩
    · cases hfind.symm.trans hfind'
      simp only [h]
      exact Or.inr (Or.inl ⟨hacc, hlt, trivial⟩)
    · cases hfind.symm.trans hfind'
      simp only [h]
      exact Or.inr (Or.inr ⟨hacc, hle, trivial⟩)

end ContentVault.ChunkedStore
