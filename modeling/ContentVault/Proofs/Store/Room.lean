import ContentVault.Proofs.History.Chronicle
import ContentVault.Proofs.Store.Fitting
import ContentVault.Vault.Config
set_option autoImplicit false

/-!
# Room for chunks

Settings are accepted if a chunk and 64 bytes beside it are within the limit of a document; if the
sum goes beyond 64 bits, the check panics.  Under accepted settings there is room for every chunk
and for every reservation, so a store refuses neither, whatever it holds and whatever others do to
it meanwhile.
-/

namespace ContentVault

/-- Settings that are accepted for a vault are accepted for its store. -/
theorem StoreConfig.chunked_valid {c : StoreConfig} (h : c.validate = .ok ()) :
    c.chunked.validate = .ok () := by
  unfold validate at h
  cases hchunked : c.chunked.validate with
  | error e =>
    rw [hchunked] at h
    cases h
  | ok _ => rfl

namespace ChunkedStore

/-! ## Programs amid others -/

/-- Put to stores of the settings, whatever each holds, the requests of the program leave the
settings alone, and its answer is as `post` says. -/
def Yields {α : Type} (config : ChunkedConfig) (post : α → Prop) : Client α → Prop
  | .done a => post a
  | .ask request next => ∀ s : Clocked ChunkedStore, s.state.bare = empty config →
    (request s).2.state.bare = empty config ∧ Yields config post (next (request s).1)

/-- Others may do anything to a store but touch its settings. -/
def KeepsSettings (config : ChunkedConfig)
    (meddle : Nat → Clocked ChunkedStore → Clocked ChunkedStore) : Prop :=
  ∀ n s, s.state.bare = empty config → (meddle n s).state.bare = empty config

namespace Yields

variable {α β : Type} {config : ChunkedConfig} {post : α → Prop} {p : Client α}

theorem bind {post' : β → Prop} {f : α → Client β} (hp : Yields config post p)
    (hf : ∀ a, post a → Yields config post' (f a)) : Yields config post' (p >>= f) := by
  induction p with
  | done a => exact hf a hp
  | ask request next ih => exact fun s hs => ⟨(hp s hs).1, ih _ (hp s hs).2⟩

/-- What is yielded is answered amid whatever others do. -/
theorem runAmid (h : Yields config post p)
    {meddle : Nat → Clocked ChunkedStore → Clocked ChunkedStore}
    (hmeddle : KeepsSettings config meddle) (n : Nat) {s : Clocked ChunkedStore}
    (hs : s.state.bare = empty config) : post (p.runAmid Program.perform meddle n s).1 := by
  induction p generalizing n s with
  | done a => exact h
  | ask request next ih =>
    obtain ⟨hafter, hnext⟩ := h (meddle n s) (hmeddle n s hs)
    exact ih _ hnext (n + 1) hafter

end Yields

/-! ## What single requests answer -/

section

variable {config : ChunkedConfig}

/-- A document is put or not, unless it is too large. -/
theorem yields_upsertStore {doc : StoreDoc} (hroom : encodedSize doc ≤ config.maxRecordBytes.toNat)
    (id : StoreId) (replaceable : StoreDoc → Bool) :
    Yields config (fun answer => ∃ done, answer = .ok done)
      (Client.upsertStore id doc replaceable) := by
  intro s hs
  refine ⟨(steady_upsertStore id doc replaceable s).trans hs, ?_⟩
  change ∃ done, (s.state.stores.upsertIf id doc replaceable).1 = .ok done
  rcases s.state.stores.upsertIf_cases id doc replaceable
    with ⟨hlt, _⟩ | ⟨_, _, hup⟩ | ⟨_, _, hup⟩
  · rw [stores_limit_of_bare hs] at hlt
    exact absurd hroom (Nat.not_le.mpr hlt)
  · exact ⟨true, congrArg Prod.fst hup⟩
  · exact ⟨false, congrArg Prod.fst hup⟩

/-- The chunk was there already. -/
def IsDuplicate (e : StoreError) : Prop := ∃ key, e = .duplicateKey "chunks" key

/-- A chunk that is not too large is added unless there is one. -/
theorem yields_insertChunk {doc : ChunkDoc} (hroom : encodedSize doc ≤ config.maxRecordBytes.toNat)
    (key : ChunkKey) :
    Yields config (fun answer => ∀ e, answer = .error e → IsDuplicate e)
      (Client.insertChunk key doc) := by
  intro s hs
  refine ⟨(steady_insertChunk key doc s).trans hs, fun e he => ?_⟩
  change (s.state.chunks.insert key doc).1 = .error e at he
  rcases s.state.chunks.insert_cases key doc with ⟨hlt, _⟩ | ⟨_, _, hins⟩ | ⟨_, _, hins⟩
  · rw [chunks_limit_of_bare hs] at hlt
    exact absurd hroom (Nat.not_le.mpr hlt)
  · rw [hins] at he
    cases he
    exact ⟨_, congrArg (StoreError.duplicateKey · _) (congrArg (·.chunks.name) hs)⟩
  · rw [hins] at he
    cases he

theorem yields_purgeChunks (id : StoreId) (doomed : UInt64 → Bool) :
    Yields config (fun _ => True) (Client.purgeChunks id doomed) :=
  fun s hs => ⟨(steady_purgeChunks id doomed s).trans hs, trivial⟩

/-! ## Claims -/

/-- A claim is answered if there is room for a reservation. -/
theorem yields_claim (hroom : 24 ≤ config.maxRecordBytes.toNat) (id : StoreId) (lease : Lease)
    (now : UInt64) :
    Yields config (fun answer => ∃ claimed, answer = .ok claimed) (claim id lease now) := by
  have hsize : encodedSize (Entry.reserved id lease : StoreDoc) ≤ config.maxRecordBytes.toNat :=
    hroom
  refine (yields_upsertStore hsize id _).bind ?_
  rintro _ ⟨done, rfl⟩
  cases done with
  | false => exact ⟨false, rfl⟩
  | true => exact (yields_purgeChunks id _).bind fun _ _ => ⟨true, rfl⟩

/-! ## Chunks in lanes -/

/-- No chunk of a cut payload is too large. -/
theorem chunkEntries_small (hroom : 26 + config.chunkSize.toNat ≤ config.maxRecordBytes.toNat)
    {payload : Bytes} {pieces : List Chunk}
    (hcut : Chunk.IsCut payload config.chunkSize.toNat pieces) (id : StoreId) (writer : UInt64) :
    ∀ entry ∈ chunkEntries id writer pieces,
      encodedSize entry.2 ≤ config.maxRecordBytes.toNat := by
  intro entry hentry
  obtain ⟨c, hc, rfl⟩ := List.mem_map.mp hentry
  have hdata := hcut.data_length_le c hc
  rw [encodedSize_chunkDoc]
  change 26 + c.data.length ≤ _
  omega

/-- What a lane has still to add is not too large, and it failed for a duplicate if it failed. -/
structure Lane.Fitting (config : ChunkedConfig) (lane : Lane) : Prop where
  small : ∀ entry ∈ lane.pending, encodedSize entry.2 ≤ config.maxRecordBytes.toNat
  failure : ∀ e, lane.failure? = some e → IsDuplicate e

namespace Lane

theorem yields_step {lane : Lane} (h : lane.Fitting config) :
    Yields config (·.Fitting config) lane.step := by
  unfold step
  split
  · exact h
  next key doc rest hpending =>
    have hsmall := h.small
    rw [hpending, List.forall_mem_cons] at hsmall
    refine (yields_insertChunk hsmall.1 key).bind fun answer hanswer => ?_
    cases answer with
    | error e =>
      refine ⟨fun entry hentry => (List.not_mem_nil hentry).elim, fun e' he' => ?_⟩
      cases he'
      exact hanswer e rfl
    | ok _ => exact ⟨hsmall.2, fun e he => (by cases he)⟩

theorem yields_insertAll {entries : List (ChunkKey × ChunkDoc)}
    (h : ∀ entry ∈ entries, encodedSize entry.2 ≤ config.maxRecordBytes.toNat) :
    Yields config (fun failure? => ∀ e, failure? = some e → IsDuplicate e) (insertAll entries) := by
  induction entries with
  | nil => exact fun e he => by cases he
  | cons entry entries ih =>
    obtain ⟨hsmall, hrest⟩ := List.forall_mem_cons.mp h
    refine (yields_insertChunk hsmall entry.1).bind fun answer hanswer => ?_
    cases answer with
    | error e =>
      intro e' he'
      cases he'
      exact hanswer e rfl
    | ok _ => exact ih hrest

theorem yields_finish {lane : Lane} (h : lane.Fitting config) :
    Yields config (fun failure? => ∀ e, failure? = some e → IsDuplicate e) lane.finish := by
  unfold finish
  split
  next e hfailure =>
    intro e' he'
    cases he'
    exact h.failure e hfailure
  · exact yields_insertAll h.small

theorem yields_follow (schedule : List Nat) {lanes : List Lane}
    (h : ∀ lane ∈ lanes, lane.Fitting config) :
    Yields config (fun lanes => ∀ lane ∈ lanes, lane.Fitting config) (follow schedule lanes) := by
  induction schedule generalizing lanes with
  | nil => exact h
  | cons i schedule ih =>
    unfold follow
    split
    · exact ih h
    next lane hlane =>
      refine (yields_step (h lane (List.mem_of_getElem? hlane))).bind fun lane' hlane' => ?_
      refine ih fun other hother => ?_
      rcases List.mem_or_eq_of_mem_set hother with hmem | rfl
      · exact h other hmem
      · exact hlane'

theorem yields_finishAll {lanes : List Lane} (h : ∀ lane ∈ lanes, lane.Fitting config) :
    Yields config (fun answer => ∀ e, answer = .error e → IsDuplicate e) (finishAll lanes) := by
  induction lanes with
  | nil => exact fun e he => by cases he
  | cons lane lanes ih =>
    obtain ⟨hlane, hlanes⟩ := List.forall_mem_cons.mp h
    refine (yields_finish hlane).bind fun failure? hfailure => ?_
    refine (ih hlanes).bind fun rest hrest => ?_
    cases failure? with
    | none => exact hrest
    | some e =>
      intro e' he'
      cases he'
      exact hfailure e rfl

end Lane

/-- Chunks that are not too large fail to be written for a duplicate only. -/
theorem yields_writeChunks (lanes : Nat) (schedule : List Nat) (id : StoreId) (writer : UInt64)
    {pieces : List Chunk} (h : ∀ entry ∈ chunkEntries id writer pieces,
      encodedSize entry.2 ≤ config.maxRecordBytes.toNat) :
    Yields config (fun answer => ∀ e, answer = .error e → IsDuplicate e)
      (writeChunks lanes schedule id writer pieces) := by
  refine (Lane.yields_follow schedule fun lane hlane => ?_).bind fun _ => Lane.yields_finishAll
  obtain ⟨i, _, rfl⟩ := List.mem_map.mp hlane
  refine ⟨fun entry hentry => ?_, fun e he => (by cases he)⟩
  obtain ⟨⟨entry', j⟩, hmem, hpick⟩ := List.mem_filterMap.mp hentry
  simp only [Option.ite_none_right_eq_some, Option.some.injEq] at hpick
  obtain ⟨_, rfl⟩ := hpick
  exact h entry' (List.fst_mem_of_mem_zipIdx hmem)

/-! ## Commits -/

/-- If a document is too large, it is that of the record. -/
def BlamesDocument (config : ChunkedConfig) (record : ContentRecord)
    (answer : Except StoreError Unit) : Prop :=
  ∀ collection size limit, answer = .error (.recordTooLarge collection size limit) →
    collection = "stores" ∧ limit = config.maxRecordBytes.toNat ∧
      size = 44 + record.contentType.utf8ByteSize + encodedSize record.status ∧ limit < size

theorem blamesDocument_of_ne {record : ContentRecord} {e : StoreError}
    (h : ∀ collection size limit, e ≠ .recordTooLarge collection size limit) :
    BlamesDocument config record (.error e) := by
  intro collection size limit he
  exact absurd (Except.error.inj he) (h collection size limit)

theorem yields_abandon {record : ContentRecord} {e : StoreError}
    (h : BlamesDocument config record (.error e)) (id : StoreId) (writer : UInt64) :
    Yields config (BlamesDocument config record) (abandon id writer e) :=
  (yields_purgeChunks id _).bind fun _ _ => h

theorem yields_commitMeta (r : Reservation StoreId) (record : ContentRecord) (count : Nat) :
    Yields config (BlamesDocument config record)
      (commitMeta r (metaOf record count r.lease.token)) := by
  -- Whichever document is marked, it takes as many bytes as that of the record.
  have hsize : ∀ doc : StoreDoc, encodedSize (doc.commit (metaOf record count r.lease.token))
      = 44 + record.contentType.utf8ByteSize + encodedSize record.status := fun _ =>
    encodedSize_committedDoc r record count
  refine @Yields.bind _ _ _ (fun done => ∀ e, done = .error e →
      BlamesDocument config record (.error e)) _ _ _ (fun s hs => ?_) fun done hdone => ?_
  · refine ⟨(steady_updateStore r.id (fun now doc => doc.isHeldBy r.lease.token now)
      (·.commit (metaOf record count r.lease.token)) s).trans hs,
      fun e he collection size limit heq => ?_⟩
    cases heq
    rcases alone_updateStore_cases s r.id (fun now doc => doc.isHeldBy r.lease.token now)
        (·.commit (metaOf record count r.lease.token))
      with ⟨_, hup⟩ | ⟨doc, _, ⟨_, hup⟩ | ⟨_, hlt, hup⟩ | ⟨_, _, hup⟩⟩
    · cases (congrArg Prod.fst hup).symm.trans he
    · cases (congrArg Prod.fst hup).symm.trans he
    · cases (congrArg Prod.fst hup).symm.trans he
      rw [hsize] at hlt ⊢
      exact ⟨congrArg (·.stores.name) hs, stores_limit_of_bare hs, rfl, hlt⟩
    · cases (congrArg Prod.fst hup).symm.trans he
  · rcases done with e | _ | _
    · exact yields_abandon (hdone e rfl) _ _
    · exact yields_abandon (blamesDocument_of_ne fun _ _ _ h => by cases h) _ _
    · intro collection size limit h
      cases h

/-- Of a commit only the document about the record can be too large. -/
theorem yields_commit (hroom : 26 + config.chunkSize.toNat ≤ config.maxRecordBytes.toNat)
    (schedule : List Nat) (r : Reservation StoreId) (record : ContentRecord) :
    Yields config (BlamesDocument config record) (commit config schedule r record) := by
  have hstore : Yields config (BlamesDocument config record) (store config schedule r record) := by
    unfold store
    split
    next e hsplit =>
      refine blamesDocument_of_ne fun _ _ _ h => ?_
      cases e <;> cases h
    next pieces hsplit =>
      have hsmall := chunkEntries_small hroom (.of_split hsplit) r.id r.lease.token
      refine (yields_writeChunks _ schedule _ _ hsmall).bind fun answer hanswer => ?_
      cases answer with
      | error e =>
        obtain ⟨key, rfl⟩ := hanswer e rfl
        exact yields_abandon (blamesDocument_of_ne fun _ _ _ h => by cases h) _ _
      | ok _ => exact yields_commitMeta r record _
  have hrefused : BlamesDocument config record (.error r.notReserved) :=
    blamesDocument_of_ne fun _ _ _ h => by cases h
  unfold commit
  split
  · exact blamesDocument_of_ne fun _ _ _ h => by cases h
  · refine @Yields.bind _ _ _ (fun _ => True) _ _ _ (fun s hs => ⟨hs, trivial⟩) fun doc? _ => ?_
    cases doc? with
    | none => exact hrefused
    | some doc =>
      refine @Yields.bind _ _ _ (fun _ => True) _ _ _ (fun s hs => ⟨hs, trivial⟩) fun now _ => ?_
      split
      · exact hstore
      · exact hrefused

end

end ChunkedStore

/-! ## Settings with room -/

open ChunkedStore (KeepsSettings chunkEntries claim writeChunks commit BlamesDocument)

/-- There is room for every chunk and every reservation, so that neither is ever too large, whatever
a store of the settings holds and whatever others do between the requests. -/
structure ChunkedConfig.TakesChunks (config : ChunkedConfig) : Prop where
  chunk_le : ∀ payload pieces, Chunk.split payload config.chunkSize.toNat = .ok pieces →
    ∀ id writer, ∀ entry ∈ chunkEntries id writer pieces,
      encodedSize entry.2 ≤ config.maxRecordBytes.toNat
  reservation_le : ∀ id lease,
    encodedSize (Entry.reserved id lease : StoreDoc) ≤ config.maxRecordBytes.toNat
  claims : ∀ meddle, KeepsSettings config meddle → ∀ s, s.state.bare = .empty config →
    ∀ id lease now, ∃ claimed,
      ((claim id lease now).runAmid Program.perform meddle 0 s).1 = .ok claimed
  writes : ∀ meddle, KeepsSettings config meddle → ∀ s, s.state.bare = .empty config →
    ∀ payload pieces, Chunk.split payload config.chunkSize.toNat = .ok pieces →
      ∀ lanes schedule id writer collection size limit,
        ((writeChunks lanes schedule id writer pieces).runAmid Program.perform meddle 0 s).1
          ≠ .error (.recordTooLarge collection size limit)
  commits : ∀ meddle, KeepsSettings config meddle → ∀ s, s.state.bare = .empty config →
    ∀ schedule r record, BlamesDocument config record
      ((commit config schedule r record).runAmid Program.perform meddle 0 s).1

namespace ChunkedConfig

variable {config : ChunkedConfig}

theorem takesChunks_of_le (hpositive : config.chunkSize ≠ 0)
    (hroom : 26 + config.chunkSize.toNat ≤ config.maxRecordBytes.toNat) : config.TakesChunks := by
  have hsize : config.chunkSize.toNat ≠ 0 := fun hzero =>
    hpositive (UInt64.toNat_inj.mp hzero)
  have hreservation : 24 ≤ config.maxRecordBytes.toNat := by omega
  have hsmall : ∀ payload pieces, Chunk.split payload config.chunkSize.toNat = .ok pieces →
      ∀ id writer, ∀ entry ∈ chunkEntries id writer pieces,
        encodedSize entry.2 ≤ config.maxRecordBytes.toNat := fun _ _ hsplit =>
    ChunkedStore.chunkEntries_small hroom (.of_split hsplit)
  refine ⟨hsmall, fun _ _ => hreservation, fun meddle hmeddle s hs id lease now => ?_,
    fun meddle hmeddle s hs payload pieces hsplit lanes schedule id writer _ _ _ he => ?_,
    fun meddle hmeddle s hs schedule r record => ?_⟩
  · exact (ChunkedStore.yields_claim hreservation id lease now).runAmid hmeddle 0 hs
  · have hwrites := ChunkedStore.yields_writeChunks lanes schedule id writer
      (hsmall payload pieces hsplit id writer)
    obtain ⟨key, hkey⟩ := hwrites.runAmid hmeddle 0 hs _ he
    cases hkey
  · exact (ChunkedStore.yields_commit hroom schedule r record).runAmid hmeddle 0 hs

/-- A payload of the size of a chunk is one chunk, so there has to be room for it. -/
theorem TakesChunks.le (h : config.TakesChunks) (hpositive : config.chunkSize ≠ 0) :
    26 + config.chunkSize.toNat ≤ config.maxRecordBytes.toNat := by
  have hsize : 0 < config.chunkSize.toNat := Nat.pos_of_ne_zero fun hzero =>
    hpositive (UInt64.toNat_inj.mp hzero)
  let payload : Bytes := .replicate config.chunkSize.toNat 0
  have hlength : payload.length = config.chunkSize.toNat := List.length_replicate
  cases hsplit : Chunk.split payload config.chunkSize.toNat with
  | error e =>
    obtain ⟨_, hcount⟩ := Chunk.split_error hsize.ne' hsplit
    have hone : Chunk.countFor payload.length config.chunkSize.toNat = 1 := by
      rw [Chunk.countFor, hlength]
      exact Nat.div_eq_of_lt_le (by omega) (by omega)
    rw [hone] at hcount
    exact absurd hcount (by decide)
  | ok pieces =>
    have hne : payload ≠ [] := List.length_pos_iff.mp (hlength ▸ hsize)
    obtain ⟨c, hc, hlongest⟩ := ChunkedStore.exists_longest_chunk hsplit hsize.ne' hne
    have hle := h.chunk_le payload pieces hsplit default 0 _ (List.mem_map_of_mem hc)
    rw [ChunkedStore.encodedSize_chunkDoc] at hle
    change 26 + c.data.length ≤ _ at hle
    rw [hlongest, hlength, Nat.min_self] at hle
    exact hle

/-- Settings take chunks exactly if the document of the longest chunk is within the limit. -/
theorem takesChunks_iff (hpositive : config.chunkSize ≠ 0) :
    config.TakesChunks ↔ 26 + config.chunkSize.toNat ≤ config.maxRecordBytes.toNat :=
  ⟨fun h => h.le hpositive, takesChunks_of_le hpositive⟩

end ChunkedConfig

open Chronicle (start)

/-- Checking settings panics if a chunk and the 64 bytes beside it cannot be counted in 64 bits, and
only then.  Accepted settings take every chunk and every reservation, and a store of them can be
created, whose settings stay whatever is done to it. -/
theorem accepted_settings_take_chunks (config : ChunkedConfig) :
    (config.validate = .error .panicked ↔
      config.chunkSize ≠ 0 ∧ UInt64.size ≤ config.chunkSize.toNat + 64) ∧
    ((config.validate = .ok () ∨ ∃ c : StoreConfig, c.validate = .ok () ∧ c.chunked = config) →
      config.TakesChunks ∧
        ∃ created, ChunkedStore.create config = .ok created ∧
          ∀ deeds, ((start created).run deeds).backend.bare = .empty config) := by
  refine ⟨config.validate_eq_panicked_iff, fun haccepted => ?_⟩
  have hvalid : config.validate = .ok () := by
    rcases haccepted with hvalid | ⟨c, hvalid, rfl⟩
    · exact hvalid
    · exact c.chunked_valid hvalid
  obtain ⟨hpositive, hroom, _⟩ := config.validate_eq_ok_iff.mp hvalid
  have hcreate := ChunkedStore.create_eq_ok_iff.mpr ⟨hvalid, rfl⟩
  exact ⟨(ChunkedConfig.takesChunks_iff hpositive).mpr (by omega), _, hcreate, fun deeds =>
    (Chronicle.tells_inChunks hcreate deeds).2⟩

/-- The longest chunks of which the sum can be counted are within the highest limit. -/
theorem accepted_settings_take_chunks_of_longest :
    let c : StoreConfig :=
      { chunkSize := 18446744073709551551, maxRecordBytes := 18446744073709551615 }
    c.validate = .ok () ∧ c.chunked.TakesChunks := by
  intro c
  have hvalid : c.validate = .ok () := by decide +kernel
  exact ⟨hvalid, ((accepted_settings_take_chunks c.chunked).2 (Or.inr ⟨c, hvalid, rfl⟩)).1⟩

/-- A chunk one byte longer is too long to be counted with what stands beside it, and no check of
the settings comes to an answer, whatever the limit. -/
theorem exists_settings_that_panic :
    ∃ c : StoreConfig, c.chunked.validate = .error .panicked ∧ c.validate = .error .panicked ∧
      ChunkedStore.create c.chunked = .error .panicked :=
  ⟨{ chunkSize := 18446744073709551552, maxRecordBytes := 10, writeParallelism := 1 },
    by decide +kernel, by decide +kernel, rfl⟩

end ContentVault
