import ContentVault.Proofs.History.ChunkSets
import ContentVault.Proofs.Store.LaneCount
set_option autoImplicit false

/-!
# The turns of lanes

Two stores whose settings differ in the number of lanes are given the same deeds, and in every
commit the lanes of either take turns as they like.  Both give the same answers, and after each
deed all three collections of one hold what those of the other hold.
-/

namespace ContentVault

/-! ## Deeds in other turns -/

/-- The same operation with other turns of the lanes. -/
def Operation.inTurns (schedule : List Nat) : {α : Type} → Operation α → Operation α
  | _, .commitStore r record hlength now _ => .commitStore r record hlength now schedule
  | _, op => op

/-- The same deed with other turns of the lanes. -/
def Deed.inTurns (schedule : List Nat) : {α : Type} → Deed α → Deed α
  | _, .standing op => .standing (op.inTurns schedule)
  | _, .commitStore r record hlength clock _ => .commitStore r record hlength clock schedule
  | _, .commitFile r record clock => .commitFile r record clock

namespace ChunkedStore

variable {s : ChunkedStore} {m : MemoryStore} {lanes : UInt64}

theorem onFiles_withLanes {α : Type} (s : ChunkedStore) (lanes : UInt64)
    (action : Collection FileId FileDoc → α × Collection FileId FileDoc) :
    (s.withLanes lanes).onFiles action
      = ((s.onFiles action).1, (s.onFiles action).2.withLanes lanes) := rfl

theorem claimFile_withLanes (s : ChunkedStore) (lanes : UInt64) (id : FileId) (lease : Lease)
    (now : UInt64) :
    (s.withLanes lanes).claimFile id lease now
      = ((s.claimFile id lease now).1, (s.claimFile id lease now).2.withLanes lanes) :=
  onFiles_withLanes s lanes _

theorem updateFile_withLanes (s : ChunkedStore) (lanes : UInt64) (record : FileRecord) :
    (s.withLanes lanes).updateFile record
      = ((s.updateFile record).1, (s.updateFile record).2.withLanes lanes) :=
  onFiles_withLanes s lanes _

theorem commitFile_withLanes (s : ChunkedStore) (lanes : UInt64) (r : Reservation FileId)
    (record : FileRecord) (clock : Clock) :
    commitFile ⟨s.withLanes lanes, clock⟩ r record
      = ((commitFile ⟨s, clock⟩ r record).1,
        ⟨(commitFile ⟨s, clock⟩ r record).2.state.withLanes lanes,
          (commitFile ⟨s, clock⟩ r record).2.clock⟩) := by
  unfold commitFile
  by_cases hid : record.id = r.id
  · by_cases hthere : s.files.records.contains r.id = true
    · have hthere' : (s.withLanes lanes).files.records.contains r.id = true := hthere
      simp only [hid, hthere, hthere', ne_eq, not_true_eq_false, if_false, if_true,
        onFiles_withLanes]
    · have hthere' : ¬ (s.withLanes lanes).files.records.contains r.id = true := hthere
      simp only [hid, hthere, hthere', ne_eq, not_true_eq_false, if_false, Bool.false_eq_true]
  · simp only [hid, ne_eq, not_false_eq_true, if_true]

/-- A reservation comes to the same under any number of lanes. -/
theorem reserve_withLanes {κ ρ : Type} [Reservable κ ρ] [SlotClaim κ ρ]
    (hclaim : ∀ (s : ChunkedStore) (id : κ) lease now,
      SlotClaim.claim id lease now (s.withLanes lanes)
        = ((SlotClaim.claim id lease now s).1, (SlotClaim.claim id lease now s).2.withLanes lanes))
    (reserver : Reserver) (candidate : κ) (deadline : Deadline) (around : World Unit)
    (s : ChunkedStore) :
    Reserver.outcome (around.withBackend (s.withLanes lanes)) (reserver.reserve candidate deadline)
      = ((Reserver.outcome (around.withBackend s) (reserver.reserve candidate deadline)).1,
        (Reserver.outcome (around.withBackend s)
          (reserver.reserve candidate deadline)).2.withLanes lanes) := by
  obtain ⟨hanswer, hbackend⟩ := reserver.related_reserve (R := fun b c => c = b.withLanes lanes)
    (fun b c hbc id lease now => by rw [hbc, hclaim]; exact ⟨rfl, rfl⟩) candidate deadline
    (around.withBackend s) rfl
  exact Prod.ext hanswer.symm hbackend

/-- A commit comes to the same under any number of lanes and in any turns. -/
theorem commit_inTurns (h : Models s m) (hbare : s.bare = empty s.config)
    (hroom : 26 + s.config.chunkSize.toNat ≤ s.config.maxRecordBytes.toNat) (hlanes : lanes ≠ 0)
    (schedule schedule' : List Nat) (r : Reservation StoreId) (record : ContentRecord)
    (clock : Clock) :
    (commit (s.config.withLanes lanes) schedule r record).alone ⟨s.withLanes lanes, clock⟩
      = (((commit s.config schedule' r record).alone ⟨s, clock⟩).1,
        ⟨((commit s.config schedule' r record).alone ⟨s, clock⟩).2.state.withLanes lanes,
          ((commit s.config schedule' r record).alone ⟨s, clock⟩).2.clock⟩) := by
  obtain ⟨hconfig, writer, hrep⟩ := h
  have hcommit := hrep.commit_eq hbare hroom hlanes hconfig.lanes_ne schedule schedule' r record
    clock
  have hignores := ignoresLanes_commit (s.config.withLanes lanes) schedule r record ⟨s, clock⟩ lanes
  rw [hcommit] at hignores
  exact hignores

/-- An operation comes to the same under any number of lanes and in any turns. -/
theorem performInChunks_inTurns (h : Models s m) (hbare : s.bare = empty s.config)
    (hroom : 26 + s.config.chunkSize.toNat ≤ s.config.maxRecordBytes.toNat) (hlanes : lanes ≠ 0)
    (schedule : List Nat) {α : Type} (op : Operation α) :
    (op.inTurns schedule).performInChunks (s.withLanes lanes)
      = ((op.performInChunks s).1, (op.performInChunks s).2.withLanes lanes) := by
  cases op with
  | claimStore id lease now => exact (ignoresLanes_claim id lease now).unclocked s lanes
  | commitStore r record hlength now schedule' =>
    exact congrArg (fun out => (out.1, out.2.state))
      (commit_inTurns h hbare hroom hlanes schedule schedule' r record (.still now))
  | releaseStore r => exact (ignoresLanes_release r).unclocked s lanes
  | reserveStore reserver candidate deadline around =>
    exact reserve_withLanes (fun s id lease now => (ignoresLanes_claim id lease now).unclocked s _)
      reserver candidate deadline around s
  | getStore id => exact (ignoresLanes_getStore id).unclocked s lanes
  | matchHash hash => exact (ignoresLanes_matchHash hash).unclocked s lanes
  | updateStatus id status => exact (ignoresLanes_updateStatus id status).unclocked s lanes
  | claimFile id lease now => exact claimFile_withLanes s lanes id lease now
  | commitFile r record now =>
    exact congrArg (fun out => (out.1, out.2.state))
      (commitFile_withLanes s lanes r record (.still now))
  | releaseFile r => rfl
  | reserveFile reserver candidate deadline around =>
    exact reserve_withLanes (fun s id lease now => claimFile_withLanes s lanes id lease now)
      reserver candidate deadline around s
  | getFile id => rfl
  | updateFile record => exact updateFile_withLanes s lanes record
  | removeFile id => rfl
  | filesForStore store => rfl

/-- A deed comes to the same under any number of lanes and in any turns. -/
theorem perform_inTurns (h : Models s m) (hbare : s.bare = empty s.config)
    (hroom : 26 + s.config.chunkSize.toNat ≤ s.config.maxRecordBytes.toNat) (hlanes : lanes ≠ 0)
    (schedule : List Nat) {α : Type} (deed : Deed α) :
    perform (deed.inTurns schedule) (s.withLanes lanes)
      = ((perform deed s).1, (perform deed s).2.withLanes lanes) := by
  cases deed with
  | standing op => exact performInChunks_inTurns h hbare hroom hlanes schedule op
  | commitStore r record hlength clock schedule' =>
    exact congrArg (fun out => (out.1, out.2.state))
      (commit_inTurns h hbare hroom hlanes schedule schedule' r record clock)
  | commitFile r record clock =>
    exact congrArg (fun out => (out.1, out.2.state)) (commitFile_withLanes s lanes r record clock)

/-! ## What lanes write -/

/-- Dealt to at most `parallelism` lanes and written in whatever turns, the pieces of a content all
come out, each once and under its own number, and no lane fails. -/
structure WritesExactly (s : ChunkedStore) (parallelism : Nat) (id : StoreId) (token : UInt64)
    (content : Bytes) (pieces : List Chunk) : Prop where
  /-- Every chunk is dealt to one lane. -/
  dealt : ((Lane.deal (min parallelism pieces.length) (chunkEntries id token pieces)).flatMap
    (·.pending)).Perm (chunkEntries id token pieces)
  /-- There was no chunk of the writer. -/
  fresh : ∀ i, s.chunks.find ⟨id, token, i⟩ = none
  unfailed : ∀ schedule clock, ∀ lane ∈ ((Lane.follow schedule
    (Lane.deal (min parallelism pieces.length) (chunkEntries id token pieces))).alone
      ⟨s, clock⟩).1, lane.failure? = none
  /-- The writer's chunks are the slices of the content, and the others are what they were. -/
  written : ∀ schedule clock, ∃ chunks,
    (writeChunks parallelism schedule id token pieces).alone ⟨s, clock⟩
      = (.ok (), ⟨{ s with chunks }, clock⟩) ∧
    (∀ i : UInt32, chunks.find ⟨id, token, i⟩ = if i.toNat < pieces.length
      then some ⟨id, token, i, Chunk.slice s.config.chunkSize.toNat content i.toNat⟩ else none) ∧
    ∀ key, ¬ (key.store = id ∧ key.writer = token) → chunks.find key = s.chunks.find key

theorem Unhindered.writesExactly {id : StoreId} {token : UInt64} {content : Bytes}
    {pieces : List Chunk} (h : Unhindered s id token pieces)
    (hsplit : Chunk.split content s.config.chunkSize.toNat = .ok pieces) {parallelism : Nat}
    (hparallelism : 0 < parallelism) : WritesExactly s parallelism id token content pieces := by
  refine ⟨flatMap_deal_chunkEntries_perm hparallelism id token pieces,
    fun i => h.none ⟨id, token, i⟩ rfl rfl, h.failure?_eq_none hparallelism,
    fun schedule clock => ?_⟩
  obtain ⟨chunks, hwrite, hfilling⟩ := h.alone_writeChunks hparallelism schedule clock
  have hslice : ∀ i, pieces[i]? = if i < pieces.length
      then some ⟨UInt32.ofNat i, Chunk.slice s.config.chunkSize.toNat content i⟩ else .none := by
    intro i
    rw [Chunk.split_getElem? hsplit, (Chunk.IsCut.of_split hsplit).length_eq]
  refine ⟨chunks, hwrite, fun i => ?_, fun key hkey => hfilling.others key fun e he heq => ?_⟩
  · by_cases hi : i.toNat < pieces.length
    · rw [if_pos hi]
      have hpiece := (hslice i.toNat).trans (if_pos hi)
      exact hfilling.find_full _
        ((mem_chunkEntries_iff h.numbered ⟨id, token, i⟩ token _).mpr ⟨rfl, _, hpiece, rfl⟩)
    · rw [if_neg hi, hfilling.others _ fun e he heq => ?_]
      · exact h.none ⟨id, token, i⟩ rfl rfl
      · obtain ⟨key, doc⟩ := e
        obtain rfl : key = ⟨id, token, i⟩ := heq
        obtain ⟨_, c, hc, _⟩ := (mem_chunkEntries_iff h.numbered ⟨id, token, i⟩ token doc).mp he
        exact hi (List.getElem?_eq_some_iff.mp hc).1
  · obtain ⟨c, _, rfl⟩ := List.mem_map.mp he
    exact hkey (heq ▸ ⟨rfl, rfl⟩)

end ChunkedStore

/-! ## Whole runs -/

namespace Chronicle

variable {σ : Type}

/-- The answers to all deeds, the latest first. -/
def answers (c : Chronicle σ) : List ((α : Type) × Except StoreError α) :=
  c.reports.map fun report => ⟨report.α, report.answer⟩

/-- The same deeds with the turns that are given for each. -/
def inTurns (turns : Nat → List Nat) (deeds : List ((α : Type) × Deed α)) :
    List ((α : Type) × Deed α) :=
  deeds.mapIdx fun i deed => ⟨deed.1, deed.2.inTurns (turns i)⟩

/-- The answers are the same, and all three collections hold the same. -/
structure Alike (c c' : Chronicle ChunkedStore) : Prop where
  answers : c.answers = c'.answers
  stores : c.backend.stores = c'.backend.stores
  chunks : c.backend.chunks = c'.backend.chunks
  files : c.backend.files = c'.backend.files

variable {c c' : Chronicle ChunkedStore} {m : MemoryStore} {config : ChunkedConfig}
  {lanes : UInt64}

/-- Two runs side by side, over settings with different numbers of lanes. -/
structure SideBySide (config : ChunkedConfig) (lanes : UInt64) (c c' : Chronicle ChunkedStore) :
    Prop where
  models : ∃ m, SlotBackend.Models c.backend m
  bare : c.backend.bare = .empty config
  backend : c'.backend = c.backend.withLanes lanes
  answers : c.answers = c'.answers

theorem SideBySide.alike (h : SideBySide config lanes c c') : Alike c c' := by
  refine ⟨h.answers, ?_, ?_, ?_⟩ <;> rw [h.backend] <;> rfl

/-- Each deed leaves the two side by side, whatever turns its lanes take. -/
theorem SideBySide.advance (h : SideBySide config lanes c c')
    (hroom : 26 + config.chunkSize.toNat ≤ config.maxRecordBytes.toNat) (hlanes : lanes ≠ 0)
    (schedule : List Nat) {α : Type} (deed : Deed α) :
    SideBySide config lanes (c.advance deed) (c'.advance (deed.inTurns schedule)) := by
  obtain ⟨m, hm⟩ := h.models
  obtain rfl := ChunkedStore.config_eq_of_bare h.bare
  have hperform := ChunkedStore.perform_inTurns hm h.bare hroom hlanes schedule deed
  rw [← h.backend] at hperform
  obtain ⟨n, hn, _⟩ := turned_carryOut hm deed
  refine ⟨⟨n, hn⟩, (ChunkedStore.bare_perform deed c.backend).trans h.bare,
    congrArg Prod.snd hperform, ?_⟩
  exact congrArg₂ (fun answer rest => ⟨α, answer⟩ :: rest) (congrArg Prod.fst hperform).symm
    h.answers

theorem SideBySide.run (h : SideBySide config lanes c c')
    (hroom : 26 + config.chunkSize.toNat ≤ config.maxRecordBytes.toNat) (hlanes : lanes ≠ 0)
    (deeds : List ((α : Type) × Deed α)) (turns : Nat → List Nat) :
    SideBySide config lanes (c.run deeds) (c'.run (inTurns turns deeds)) := by
  induction deeds generalizing c c' turns with
  | nil => exact h
  | cons deed deeds ih =>
    unfold inTurns
    rw [List.mapIdx_cons]
    exact ih (h.advance hroom hlanes (turns 0) deed.2) fun i => turns (i + 1)

end Chronicle

/-- Settings under which a chunk and what stands beside it fit into a record are accepted. -/
theorem ChunkedStore.create_of_room {config : ChunkedConfig} (hsize : 1 ≤ config.chunkSize.toNat)
    (hroom : config.chunkSize.toNat + 64 ≤ config.maxRecordBytes.toNat)
    (hlanes : 1 ≤ config.writeParallelism.toNat) : create config = .ok (.empty config) := by
  have hpositive : ∀ {n : UInt64}, 1 ≤ n.toNat → n ≠ 0 := by
    rintro _ hn rfl
    cases hn
  exact create_eq_ok_iff.mpr
    ⟨config.validate_eq_ok_iff.mpr ⟨hpositive hsize, hroom, hpositive hlanes⟩, rfl⟩

/-- Any deeds come to the same answers and the same documents under any number of lanes, whatever
turns the lanes take; and at every moment whoever holds an identifier can write all chunks of any
content. -/
theorem lanes_do_not_show (config : ChunkedConfig) (hsize : 1 ≤ config.chunkSize.toNat)
    (hroom : config.chunkSize.toNat + 64 ≤ config.maxRecordBytes.toNat)
    (hparallelism : 1 ≤ config.writeParallelism.toNat) (lanes : UInt64) (hlanes : 1 ≤ lanes.toNat)
    (deeds : List ((α : Type) × Deed α)) (turns : Nat → List Nat) :
    let s := ChunkedStore.empty config
    let s' := ChunkedStore.empty (config.withLanes lanes)
    ChunkedStore.create config = .ok s ∧ ChunkedStore.create (config.withLanes lanes) = .ok s' ∧
      ∀ count,
        let c := (Chronicle.start s).run (deeds.take count)
        let c' := (Chronicle.start s').run (Chronicle.inTurns turns (deeds.take count))
        c.Alike c' ∧
        ∀ id doc token now content pieces, c.backend.stores.find id = some doc →
          doc.isHeldBy token now = true →
          Chunk.split content config.chunkSize.toNat = .ok pieces →
          ∀ parallelism, 1 ≤ parallelism →
            c.backend.WritesExactly parallelism id token content pieces := by
  intro s s'
  have hroom' : 26 + config.chunkSize.toNat ≤ config.maxRecordBytes.toNat := by omega
  have hcreate := ChunkedStore.create_of_room hsize hroom hparallelism
  have hcreate' : ChunkedStore.create (config.withLanes lanes) = .ok _ :=
    ChunkedStore.create_of_room hsize hroom hlanes
  have hne : lanes ≠ 0 := by
    rintro rfl
    cases hlanes
  refine ⟨hcreate, hcreate', fun count => ?_⟩
  have hstart : Chronicle.SideBySide config lanes (.start s) (.start s') :=
    ⟨⟨.empty, ChunkedStore.models_empty (ChunkedStore.usable_of_create hcreate).2⟩, rfl, rfl, rfl⟩
  have hrun := hstart.run hroom' hne (deeds.take count) turns
  refine ⟨hrun.alike, fun id doc token now content pieces hdoc hheld hsplit parallelism hpos => ?_⟩
  obtain ⟨m, _, writer, hrep⟩ := hrun.models
  have hunhindered := hrep.unhindered hrun.bare hroom' (hrep.record?_of_isHeldBy hdoc hheld) token
    hsplit
  rw [← ChunkedStore.config_eq_of_bare hrun.bare] at hsplit
  exact hunhindered.writesExactly hsplit hpos

/-- Three chunks written by one lane, or by three of which the last goes first. -/
theorem lanes_do_not_show_in_three :
    let config : ChunkedConfig := ⟨2, 128, 1⟩
    let deeds : List ((α : Type) × Deed α) :=
      [⟨_, .standing (.claimStore ⟨7, 0⟩ ⟨1, 100⟩ 5)⟩,
       ⟨_, .commitStore ⟨⟨7, 0⟩, ⟨1, 100⟩⟩ (.fresh ⟨7, 0⟩ [1, 2, 3, 4, 5] "text/plain" 5)
         (by decide) (.still 6) []⟩]
    let c := (Chronicle.start (ChunkedStore.empty config)).run deeds
    let c' := (Chronicle.start (ChunkedStore.empty (config.withLanes 3))).run
      (Chronicle.inTurns (fun _ => [2, 1]) deeds)
    1 ≤ config.chunkSize.toNat ∧ config.chunkSize.toNat + 64 ≤ config.maxRecordBytes.toNat ∧
      1 ≤ config.writeParallelism.toNat ∧ 1 ≤ (3 : UInt64).toNat ∧ c.Alike c' ∧
      c'.backend.chunks.find ⟨⟨7, 0⟩, 1, 2⟩ = some ⟨⟨7, 0⟩, 1, 2, [5]⟩ := by
  intro config deeds c c'
  have hsize : 1 ≤ config.chunkSize.toNat := by decide
  have hroom : config.chunkSize.toNat + 64 ≤ config.maxRecordBytes.toNat := by decide
  have hparallelism : 1 ≤ config.writeParallelism.toNat := by decide
  have hlanes : 1 ≤ (3 : UInt64).toNat := by decide
  have halike : c.Alike c' :=
    ((lanes_do_not_show config hsize hroom hparallelism 3 hlanes deeds fun _ => [2, 1]).2.2 2).1
  exact ⟨hsize, hroom, hparallelism, hlanes, halike, by decide +kernel⟩

end ContentVault
