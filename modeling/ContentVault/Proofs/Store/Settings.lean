import ContentVault.Proofs.Store.SlotBackend
set_option autoImplicit false

/-!
# What no operation changes

Operations put documents into a chunked store and take them away.  Its settings, and the names
and limits of its collections, stay what they were when it was created.
-/

namespace ContentVault

namespace Collection

variable {κ δ : Type} [Ord κ]

/-- The collection without its documents. -/
def bare (c : Collection κ δ) : Collection κ δ := { c with records := .empty }

@[simp] theorem bare_drop (c : Collection κ δ) (key : κ) : (c.drop key).bare = c.bare := rfl

@[simp] theorem bare_put [Std.TransOrd κ] (c : Collection κ δ) (key : κ) (doc : δ) :
    (c.put key doc).bare = c.bare := rfl

@[simp] theorem bare_deleteIf (c : Collection κ δ) (key : κ) (accepts : δ → Bool) :
    (c.deleteIf key accepts).2.bare = c.bare := by
  rcases c.deleteIf_cases key accepts with ⟨_, h⟩ | ⟨_, _, _, h⟩
  · rw [h]
  · rw [h, bare_drop]

variable [EncodedSize δ] [Std.TransOrd κ]

@[simp] theorem bare_insert [Describe κ] (c : Collection κ δ) (key : κ) (doc : δ) :
    (c.insert key doc).2.bare = c.bare := by
  rcases c.insert_cases key doc with ⟨_, h⟩ | ⟨_, _, h⟩ | ⟨_, _, h⟩
  · rw [h]
  · rw [h]
  · rw [h, bare_put]

@[simp] theorem bare_upsertIf (c : Collection κ δ) (key : κ) (doc : δ) (replaceable : δ → Bool) :
    (c.upsertIf key doc replaceable).2.bare = c.bare := by
  rcases c.upsertIf_cases key doc replaceable with ⟨_, h⟩ | ⟨_, _, h⟩ | ⟨_, _, h⟩
  · rw [h]
  · rw [h, bare_put]
  · rw [h]

@[simp] theorem bare_updateIf (c : Collection κ δ) (key : κ) (accepts : δ → Bool)
    (change : δ → δ) : (c.updateIf key accepts change).2.bare = c.bare := by
  rcases c.updateIf_cases key accepts change with ⟨_, h⟩ | ⟨_, _, _, _, h⟩ | ⟨_, _, _, _, h⟩
  · rw [h]
  · rw [h]
  · rw [h, bare_put]

end Collection

namespace ChunkedStore

/-- The store without its documents. -/
def bare (s : ChunkedStore) : ChunkedStore :=
  { s with stores := s.stores.bare, chunks := s.chunks.bare, files := s.files.bare }

section

variable {s : ChunkedStore} {config : ChunkedConfig} (h : s.bare = empty config)
include h

theorem config_eq_of_bare : s.config = config := congrArg ChunkedStore.config h

theorem stores_limit_of_bare : s.stores.limit = config.maxRecordBytes.toNat :=
  congrArg (·.stores.limit) h

theorem chunks_limit_of_bare : s.chunks.limit = config.maxRecordBytes.toNat :=
  congrArg (·.chunks.limit) h

theorem files_limit_of_bare : s.files.limit = config.maxRecordBytes.toNat :=
  congrArg (·.files.limit) h

theorem tooLarge_stores_of_bare (doc : StoreDoc) :
    s.stores.tooLarge doc
      = .recordTooLarge "stores" (encodedSize doc) config.maxRecordBytes.toNat := by
  rw [Collection.tooLarge, stores_limit_of_bare h]
  exact congrArg (StoreError.recordTooLarge · _ _) (congrArg (·.stores.name) h)

theorem tooLarge_files_of_bare (doc : FileDoc) :
    s.files.tooLarge doc
      = .recordTooLarge "files" (encodedSize doc) config.maxRecordBytes.toNat := by
  rw [Collection.tooLarge, files_limit_of_bare h]
  exact congrArg (StoreError.recordTooLarge · _ _) (congrArg (·.files.name) h)

end

/-! ## Programs on blobs -/

/-- The program puts and takes documents only. -/
def Steady {α : Type} (p : Client α) : Prop := ∀ s, (p.alone s).2.state.bare = s.state.bare

namespace Steady

variable {α β : Type}

theorem pure (a : α) : Steady (pure a : Client α) := fun _ => rfl

theorem bind {p : Client α} {f : α → Client β} (hp : Steady p) (hf : ∀ a, Steady (f a)) :
    Steady (p >>= f) := by
  intro s
  rw [Client.alone_bind]
  exact (hf (p.alone s).1 (p.alone s).2).trans (hp s)

/-- A step that leaves the documents alone. -/
theorem look {action : Atomic (Clocked ChunkedStore) α}
    (h : ∀ s, (action s).2.state = s.state) : Steady (.request action) := by
  intro s
  exact congrArg bare (h s)

end Steady

theorem steady_purgeChunks (id : StoreId) (doomed : UInt64 → Bool) :
    Steady (Client.purgeChunks id doomed) := fun _ => rfl

theorem steady_upsertStore (id : StoreId) (doc : StoreDoc) (replaceable : StoreDoc → Bool) :
    Steady (Client.upsertStore id doc replaceable) := by
  intro s
  rw [alone_upsertStore]
  simp only [bare, Collection.bare_upsertIf]

theorem steady_deleteStore (id : StoreId) (accepts : StoreDoc → Bool) :
    Steady (Client.deleteStore id accepts) := by
  intro s
  rw [alone_deleteStore]
  simp only [bare, Collection.bare_deleteIf]

theorem steady_insertChunk (key : ChunkKey) (doc : ChunkDoc) :
    Steady (Client.insertChunk key doc) := by
  intro s
  rw [alone_insertChunk]
  simp only [bare, Collection.bare_insert]

theorem steady_updateStore (id : StoreId) (accepts : UInt64 → StoreDoc → Bool)
    (change : StoreDoc → StoreDoc) : Steady (Client.updateStore id accepts change) := by
  intro s
  rcases alone_updateStore_cases s id accepts change
    with ⟨_, h⟩ | ⟨_, _, ⟨_, h⟩ | ⟨_, _, h⟩ | ⟨_, _, h⟩⟩
  · rw [h]
  · rw [h]
  · rw [h]
  · rw [h]
    rfl

theorem steady_claim (id : StoreId) (lease : Lease) (now : UInt64) :
    Steady (claim id lease now) := by
  refine (steady_upsertStore id _ _).bind fun done => ?_
  rcases done with e | _ | _
  · exact .pure _
  · exact .pure _
  · exact (steady_purgeChunks id _).bind fun _ => .pure _

theorem steady_release (r : Reservation StoreId) : Steady (release r) := by
  refine (steady_deleteStore r.id _).bind fun done => ?_
  cases done with
  | false => exact .pure _
  | true => exact (steady_purgeChunks r.id _).bind fun _ => .pure _

theorem steady_updateStatus (id : StoreId) (status : Status) : Steady (updateStatus id status) := by
  refine (steady_updateStore id _ _).bind fun done => ?_
  rcases done with e | _ | _ <;> exact .pure _

/-! ## Lanes -/

theorem steady_insertAll (entries : List (ChunkKey × ChunkDoc)) :
    Steady (Lane.insertAll entries) := by
  induction entries with
  | nil => exact .pure _
  | cons entry entries ih =>
    refine (steady_insertChunk entry.1 entry.2).bind fun done => ?_
    cases done with
    | error e => exact .pure _
    | ok _ => exact ih

theorem steady_finish (lane : Lane) : Steady lane.finish := by
  unfold Lane.finish
  split
  · exact .pure _
  · exact steady_insertAll _

theorem steady_finishAll (lanes : List Lane) : Steady (Lane.finishAll lanes) := by
  induction lanes with
  | nil => exact .pure _
  | cons lane lanes ih => exact (steady_finish lane).bind fun _ => ih.bind fun _ => .pure _

theorem steady_step (lane : Lane) : Steady lane.step := by
  unfold Lane.step
  split
  · exact .pure _
  · exact (steady_insertChunk _ _).bind fun _ => .pure _

theorem steady_follow (schedule : List Nat) (lanes : List Lane) :
    Steady (Lane.follow schedule lanes) := by
  induction schedule generalizing lanes with
  | nil => exact .pure _
  | cons i schedule ih =>
    unfold Lane.follow
    split
    · exact ih lanes
    · exact (steady_step _).bind fun _ => ih _

theorem steady_writeChunks (parallelism : Nat) (schedule : List Nat) (id : StoreId)
    (writer : UInt64) (pieces : List Chunk) :
    Steady (writeChunks parallelism schedule id writer pieces) :=
  (steady_follow schedule _).bind fun _ => steady_finishAll _

/-! ## Commits -/

theorem steady_abandon (id : StoreId) (writer : UInt64) (e : StoreError) :
    Steady (abandon id writer e) := (steady_purgeChunks id _).bind fun _ => .pure _

theorem steady_commitMeta (r : Reservation StoreId) (m : StoreMeta) : Steady (commitMeta r m) := by
  refine (steady_updateStore r.id _ _).bind fun done => ?_
  rcases done with e | _ | _
  · exact steady_abandon _ _ _
  · exact steady_abandon _ _ _
  · exact .pure _

theorem steady_store (config : ChunkedConfig) (schedule : List Nat) (r : Reservation StoreId)
    (record : ContentRecord) : Steady (store config schedule r record) := by
  unfold store
  split
  · exact .pure _
  · refine (steady_writeChunks _ _ _ _ _).bind fun done => ?_
    cases done with
    | error e => exact steady_abandon _ _ _
    | ok _ => exact steady_commitMeta _ _

theorem steady_commit (config : ChunkedConfig) (schedule : List Nat) (r : Reservation StoreId)
    (record : ContentRecord) : Steady (commit config schedule r record) := by
  unfold commit
  split
  · exact .pure _
  · refine Steady.bind (.look fun _ => rfl) fun doc? => ?_
    cases doc? with
    | none => exact .pure _
    | some doc =>
      refine Steady.bind (.look fun _ => rfl) fun now => ?_
      split
      · exact steady_store _ _ _ _
      · exact .pure _

/-! ## Files -/

theorem bare_onFiles {α : Type} (s : ChunkedStore)
    {action : Collection FileId FileDoc → α × Collection FileId FileDoc}
    (h : (action s.files).2.bare = s.files.bare) : (s.onFiles action).2.bare = s.bare := by
  simp only [onFiles, bare, h]

theorem bare_claimFile (s : ChunkedStore) (id : FileId) (lease : Lease) (now : UInt64) :
    (s.claimFile id lease now).2.bare = s.bare :=
  s.bare_onFiles (Collection.bare_upsertIf _ _ _ _)

theorem bare_commitFile (s : Clocked ChunkedStore) (r : Reservation FileId) (record : FileRecord) :
    (commitFile s r record).2.state.bare = s.state.bare := by
  unfold commitFile
  split
  · rfl
  · split
    · simp only [onFiles, bare, Collection.bare_updateIf]
    · rfl

theorem bare_releaseFile (s : ChunkedStore) (r : Reservation FileId) :
    (s.releaseFile r).2.bare = s.bare :=
  s.bare_onFiles (Collection.bare_deleteIf _ _ _)

theorem bare_updateFile (s : ChunkedStore) (record : FileRecord) :
    (s.updateFile record).2.bare = s.bare :=
  s.bare_onFiles (Collection.bare_updateIf _ _ _ _)

theorem bare_removeFile (s : ChunkedStore) (id : FileId) : (s.removeFile id).2.bare = s.bare :=
  s.bare_onFiles (Collection.bare_deleteIf _ _ _)

end ChunkedStore

end ContentVault
