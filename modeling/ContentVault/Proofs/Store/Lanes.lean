import ContentVault.Proofs.Content.Pieces
import ContentVault.Proofs.Store.Steps
import Mathlib.Data.List.Perm.Basic
set_option autoImplicit false

/-!
# Writing chunks in lanes: what comes of it

Under a writer who has no chunks yet, nothing but the size limit can stop a lane.  At every
moment each entry is in the collection, or is still to be added by exactly one lane, or a
lane has failed; so when all lanes have finished without failure, all entries are there.
-/

namespace ContentVault

/-- The size of a document, or the number of chunks, is beyond what a store takes. -/
def StoreError.isRefusal : StoreError → Bool
  | .recordTooLarge .. => true
  | .codec (.tooManyChunks ..) => true
  | _ => false

namespace ChunkedStore

variable {base chunks : Collection ChunkKey ChunkDoc}
  {entries pending rest : List (ChunkKey × ChunkDoc)} {failed : Prop}

/-- Entries are being added to `base`: the pending ones are still to come, each once, and the others
are there unless something failed; what was added is within the limit. -/
structure Filling (base : Collection ChunkKey ChunkDoc) (entries : List (ChunkKey × ChunkDoc))
    (pending : List (ChunkKey × ChunkDoc)) (failed : Prop)
    (chunks : Collection ChunkKey ChunkDoc) : Prop where
  unique : ∀ a ∈ entries, ∀ b ∈ entries, a.1 = b.1 → a = b
  name_eq : chunks.name = base.name
  limit_eq : chunks.limit = base.limit
  others : ∀ key, (∀ e ∈ entries, e.1 ≠ key) → chunks.find key = base.find key
  mem : ∀ e ∈ pending, e ∈ entries
  distinct : pending.Pairwise fun a b => a.1 ≠ b.1
  missing : ∀ e ∈ pending, chunks.find e.1 = none
  present : ∀ e ∈ entries,
    chunks.find e.1 = some e.2 ∨ chunks.find e.1 = none ∧ (e ∈ pending ∨ failed)
  small : ∀ e ∈ entries, encodedSize e.2 ≤ base.limit ∨ e ∈ pending ∨ failed

/-- The error says that one of the entries is too large for the collection. -/
def TooLarge (base : Collection ChunkKey ChunkDoc) (entries : List (ChunkKey × ChunkDoc))
    (e : StoreError) : Prop :=
  ∃ entry ∈ entries, base.limit < encodedSize entry.2 ∧ e = base.tooLarge entry.2

theorem TooLarge.isRefusal {e : StoreError} (h : TooLarge base entries e) :
    e.isRefusal = true := by
  obtain ⟨entry, _, _, rfl⟩ := h
  rfl

namespace Filling

theorem perm (h : Filling base entries pending failed chunks) (hperm : pending.Perm rest) :
    Filling base entries rest failed chunks := by
  refine ⟨h.unique, h.name_eq, h.limit_eq, h.others, fun e he => h.mem e (hperm.mem_iff.mpr he), ?_,
    fun e he => h.missing e (hperm.mem_iff.mpr he), fun e he => ?_, fun e he => ?_⟩
  · exact (hperm.pairwise_iff fun {a b} => Ne.symm).mp h.distinct
  · rw [← hperm.mem_iff]
    exact h.present e he
  · rw [← hperm.mem_iff]
    exact h.small e he

/-- What a lane that failed had still to add is not added any more. -/
theorem fail (doomed : List (ChunkKey × ChunkDoc))
    (h : Filling base entries (doomed ++ rest) failed chunks) :
    Filling base entries rest True chunks := by
  refine ⟨h.unique, h.name_eq, h.limit_eq, h.others,
    fun e he => h.mem e (List.mem_append_right doomed he),
    (List.pairwise_append.mp h.distinct).2.1,
    fun e he => h.missing e (List.mem_append_right doomed he), fun e he => ?_,
    fun _ _ => Or.inr (Or.inr trivial)⟩
  rcases h.present e he with hfind | ⟨hfind, _⟩
  · exact Or.inl hfind
  · exact Or.inr ⟨hfind, Or.inr trivial⟩

theorem weaken {failed' : Prop} (h : Filling base entries pending failed chunks)
    (himp : failed → failed') : Filling base entries pending failed' chunks := by
  refine ⟨h.unique, h.name_eq, h.limit_eq, h.others, h.mem, h.distinct, h.missing, fun e he => ?_,
    fun e he => (h.small e he).imp_right (Or.imp_right himp)⟩
  rcases h.present e he with hfind | ⟨hfind, hwhy⟩
  · exact Or.inl hfind
  · exact Or.inr ⟨hfind, hwhy.imp_right himp⟩

/-- The next entry is added, unless it is beyond the limit. -/
theorem insert_cases {key : ChunkKey} {doc : ChunkDoc}
    (h : Filling base entries ((key, doc) :: rest) failed chunks) :
    (∃ e, TooLarge base entries e ∧ chunks.insert key doc = (.error e, chunks)) ∨
    (∃ chunks', chunks.insert key doc = (.ok (), chunks') ∧
      Filling base entries rest failed chunks') := by
  have hmem : (key, doc) ∈ entries := h.mem _ List.mem_cons_self
  have hmissing : chunks.find key = none := h.missing _ List.mem_cons_self
  have hdistinct := List.pairwise_cons.mp h.distinct
  rcases chunks.insert_cases key doc with ⟨hlt, hins⟩ | ⟨_, ⟨old, hold⟩, _⟩ | ⟨hle, _, hins⟩
  · refine Or.inl ⟨_, ⟨(key, doc), hmem, h.limit_eq ▸ hlt, ?_⟩, hins⟩
    rw [Collection.tooLarge, Collection.tooLarge, h.name_eq, h.limit_eq]
  · rw [hmissing] at hold
    cases hold
  · refine Or.inr ⟨_, hins, h.unique, h.name_eq, h.limit_eq, fun key' hkey' => ?_,
      fun e he => h.mem e (List.mem_cons_of_mem _ he), hdistinct.2, fun e he => ?_,
      fun e he => ?_, fun e he => ?_⟩
    · rw [Collection.find_put, if_neg fun heq => hkey' _ hmem heq.symm]
      exact h.others key' hkey'
    · rw [Collection.find_put, if_neg fun heq => hdistinct.1 e he heq.symm]
      exact h.missing e (List.mem_cons_of_mem _ he)
    · rw [Collection.find_put]
      by_cases hkey : e.1 = key
      · rw [if_pos hkey, h.unique e he _ hmem hkey]
        exact Or.inl rfl
      · rw [if_neg hkey]
        rcases h.present e he with hfind | ⟨hfind, hwhy⟩
        · exact Or.inl hfind
        · refine Or.inr ⟨hfind, hwhy.imp_left fun hpending => ?_⟩
          rcases List.mem_cons.mp hpending with rfl | hpending
          · exact absurd rfl hkey
          · exact hpending
    · rcases h.small e he with hsmall | hpending | hfailed
      · exact Or.inl hsmall
      · rcases List.mem_cons.mp hpending with rfl | hpending
        · exact Or.inl (h.limit_eq ▸ hle)
        · exact Or.inr (Or.inl hpending)
      · exact Or.inr (Or.inr hfailed)

end Filling

/-! ## Lanes that are carried out alone -/

/-- The same store and clock with other chunks. -/
def withChunks (s : Clocked ChunkedStore) (chunks : Collection ChunkKey ChunkDoc) :
    Clocked ChunkedStore :=
  { s with state := { s.state with chunks } }

/-- Lanes at work: what they have still to add is pending, and a lane that failed was refused an
entry and adds nothing any more. -/
structure AtWork (base : Collection ChunkKey ChunkDoc) (entries : List (ChunkKey × ChunkDoc))
    (failed : Prop) (lanes : List Lane) (chunks : Collection ChunkKey ChunkDoc) : Prop where
  filling : Filling base entries (lanes.flatMap (·.pending))
    (failed ∨ ∃ lane ∈ lanes, lane.failure?.isSome = true) chunks
  refused : ∀ lane ∈ lanes, ∀ e, lane.failure? = some e →
    TooLarge base entries e ∧ lane.pending = []

theorem alone_insertAll (s : Clocked ChunkedStore)
    (h : Filling base entries (pending ++ rest) failed s.state.chunks) :
    ∃ failure? chunks, (Lane.insertAll pending).alone s = (failure?, withChunks s chunks) ∧
      Filling base entries rest (failed ∨ failure?.isSome = true) chunks ∧
      ∀ e, failure? = some e → TooLarge base entries e := by
  induction pending generalizing s with
  | nil => exact ⟨none, s.state.chunks, rfl, h.weaken Or.inl, fun e he => by cases he⟩
  | cons entry pending ih =>
    obtain ⟨key, doc⟩ := entry
    unfold Lane.insertAll
    rw [Client.alone_bind, alone_insertChunk]
    rcases h.insert_cases with ⟨e, he, hins⟩ | ⟨chunks', hins, hfilling⟩
    · rw [hins]
      refine ⟨some e, s.state.chunks, rfl, ?_, fun e' he' => ?_⟩
      · exact (h.fail ((key, doc) :: pending)).weaken fun _ => Or.inr rfl
      · cases he'
        exact he
    · rw [hins]
      exact ih (withChunks s chunks') hfilling

theorem alone_finish {lane : Lane} (s : Clocked ChunkedStore)
    (h : Filling base entries (lane.pending ++ rest) (failed ∨ lane.failure?.isSome = true)
      s.state.chunks)
    (hrefused : ∀ e, lane.failure? = some e → TooLarge base entries e ∧ lane.pending = []) :
    ∃ failure? chunks, lane.finish.alone s = (failure?, withChunks s chunks) ∧
      Filling base entries rest (failed ∨ failure?.isSome = true) chunks ∧
      ∀ e, failure? = some e → TooLarge base entries e := by
  unfold Lane.finish
  cases hfailure : lane.failure? with
  | none =>
    rw [hfailure] at h
    exact alone_insertAll s (h.weaken fun hf => hf.resolve_right fun hsome => by cases hsome)
  | some e =>
    obtain ⟨hrefusal, hpending⟩ := hrefused e hfailure
    rw [hfailure, hpending] at h
    refine ⟨some e, s.state.chunks, rfl, h, fun e' he' => ?_⟩
    cases he'
    exact hrefusal

theorem alone_finishAll {lanes : List Lane} (s : Clocked ChunkedStore)
    (h : AtWork base entries failed lanes s.state.chunks) :
    ∃ result chunks, (Lane.finishAll lanes).alone s = (result, withChunks s chunks) ∧
      Filling base entries [] (failed ∨ ∃ e, result = .error e) chunks ∧
      ∀ e, result = .error e → TooLarge base entries e := by
  induction lanes generalizing s failed with
  | nil =>
    refine ⟨.ok (), s.state.chunks, rfl, h.filling.weaken ?_, fun e he => by cases he⟩
    rintro (hf | ⟨lane, hlane, _⟩)
    · exact Or.inl hf
    · cases hlane
  | cons lane lanes ih =>
    have hrefused := List.forall_mem_cons.mp h.refused
    have hfirst : Filling base entries (lane.pending ++ lanes.flatMap (·.pending))
        ((failed ∨ ∃ lane ∈ lanes, lane.failure?.isSome = true) ∨ lane.failure?.isSome = true)
        s.state.chunks := by
      refine h.filling.weaken ?_
      rintro (hf | ⟨lane', hlane', hsome⟩)
      · exact Or.inl (Or.inl hf)
      · rcases List.mem_cons.mp hlane' with rfl | hlane'
        · exact Or.inr hsome
        · exact Or.inl (Or.inr ⟨lane', hlane', hsome⟩)
    obtain ⟨failure?, chunks', hfinish, hfilling, hfailure⟩ := alone_finish s hfirst hrefused.1
    have hlater : AtWork base entries (failed ∨ failure?.isSome = true) lanes chunks' := by
      refine ⟨hfilling.weaken ?_, hrefused.2⟩
      rintro ((hf | hf) | hf)
      · exact Or.inl (Or.inl hf)
      · exact Or.inr hf
      · exact Or.inl (Or.inr hf)
    obtain ⟨result, chunks, hrest, hdone, hresult⟩ := ih (withChunks s chunks') hlater
    unfold Lane.finishAll
    simp only [Client.alone_bind, hfinish, hrest, Client.alone_pure]
    cases failure? with
    | some e =>
      refine ⟨.error e, chunks, rfl, hdone.weaken fun _ => Or.inr ⟨e, rfl⟩, fun e' he' => ?_⟩
      cases he'
      exact hfailure e rfl
    | none =>
      refine ⟨result, chunks, rfl, hdone.weaken fun hf => ?_, hresult⟩
      rcases hf with (hf | hsome) | hf
      · exact Or.inl hf
      · cases hsome
      · exact Or.inr hf

/-! ## Lanes that take turns -/

theorem flatMap_pending_perm (before after : List Lane) (lane : Lane) :
    ((before ++ lane :: after).flatMap (·.pending)).Perm
      (lane.pending ++ (before ++ after).flatMap (·.pending)) := by
  rw [List.flatMap_append, List.flatMap_cons, List.flatMap_append, ← List.append_assoc,
    ← List.append_assoc]
  exact List.perm_append_comm.append_right _

theorem alone_step {before after : List Lane} {lane : Lane} (s : Clocked ChunkedStore)
    (h : AtWork base entries failed (before ++ lane :: after) s.state.chunks) :
    ∃ lane' chunks, lane.step.alone s = (lane', withChunks s chunks) ∧
      AtWork base entries failed (before ++ lane' :: after) chunks := by
  have hrefused := h.refused lane (List.mem_append_right before List.mem_cons_self)
  have hothers : ∀ lane' ∈ before ++ after, lane' ∈ before ++ lane :: after := by
    intro lane' hlane'
    rw [List.mem_append, List.mem_cons]
    exact (List.mem_append.mp hlane').imp_right Or.inr
  have hmem : ∀ lane' other, other ∈ before ++ lane' :: after ↔
      other = lane' ∨ other ∈ before ++ after := by
    intro lane' other
    simp only [List.mem_append, List.mem_cons]
    exact or_left_comm
  have hfilling := h.filling.perm (flatMap_pending_perm before after lane)
  unfold Lane.step
  cases hpending : lane.pending with
  | nil => exact ⟨lane, s.state.chunks, rfl, h⟩
  | cons entry pending =>
    obtain ⟨key, doc⟩ := entry
    rw [hpending] at hfilling
    have hworking : lane.failure? = none := by
      rw [Option.eq_none_iff_forall_ne_some]
      intro e he
      rw [(hrefused e he).2] at hpending
      cases hpending
    simp only [Client.alone_bind, alone_insertChunk, Client.alone_pure]
    rcases hfilling.insert_cases with ⟨e, he, hins⟩ | ⟨chunks', hins, hadded⟩
    · rw [hins]
      refine ⟨⟨[], some e⟩, s.state.chunks, rfl, ?_, fun other hother e' he' => ?_⟩
      · refine ((hfilling.fail ((key, doc) :: pending)).perm
          (flatMap_pending_perm before after ⟨[], some e⟩).symm).weaken fun _ => ?_
        exact Or.inr ⟨⟨[], some e⟩, (hmem _ _).mpr (Or.inl rfl), rfl⟩
      · rcases (hmem _ _).mp hother with rfl | hother
        · cases he'
          exact ⟨he, rfl⟩
        · exact h.refused other (hothers other hother) e' he'
    · rw [hins]
      refine ⟨⟨pending, none⟩, chunks', rfl, ?_, fun other hother e' he' => ?_⟩
      · refine (hadded.perm (flatMap_pending_perm before after ⟨pending, none⟩).symm).weaken ?_
        rintro (hf | ⟨other, hother, hsome⟩)
        · exact Or.inl hf
        · rcases (hmem _ _).mp hother with rfl | hother
          · rw [hworking] at hsome
            cases hsome
          · exact Or.inr ⟨other, (hmem _ _).mpr (Or.inr hother), hsome⟩
      · rcases (hmem _ _).mp hother with rfl | hother
        · cases he'
        · exact h.refused other (hothers other hother) e' he'

theorem alone_follow (schedule : List Nat) {lanes : List Lane} (s : Clocked ChunkedStore)
    (h : AtWork base entries failed lanes s.state.chunks) :
    ∃ lanes' chunks, (Lane.follow schedule lanes).alone s = (lanes', withChunks s chunks) ∧
      AtWork base entries failed lanes' chunks := by
  induction schedule generalizing lanes s with
  | nil => exact ⟨lanes, s.state.chunks, rfl, h⟩
  | cons i schedule ih =>
    unfold Lane.follow
    cases hlane : lanes[i]? with
    | none => exact ih s h
    | some lane =>
      obtain ⟨hi, hget⟩ := List.getElem?_eq_some_iff.mp hlane
      have hlanes : lanes = lanes.take i ++ lane :: lanes.drop (i + 1) := by
        rw [← hget, List.getElem_cons_drop, List.take_append_drop]
      rw [hlanes] at h
      obtain ⟨lane', chunks', hstep, hwork⟩ := alone_step s h
      have hset : lanes.set i lane' = lanes.take i ++ lane' :: lanes.drop (i + 1) := by
        rw [List.set_eq_take_append_cons_drop, if_pos hi]
      simp only [Client.alone_bind, hstep, hset]
      exact ih (withChunks s chunks') hwork

/-! ## Dealing entries to lanes -/

/-- Among the first `count` numbers, one is `k`. -/
theorem flatMap_range_singleton {α : Type} (a : α) (k count : Nat) :
    ((List.range count).flatMap fun i => if k = i then [a] else [])
      = if k < count then [a] else [] := by
  induction count with
  | zero => rfl
  | succ count ih =>
    rw [List.range_succ, List.flatMap_append, ih, List.flatMap_singleton]
    rcases Nat.lt_trichotomy k count with hlt | heq | hgt
    · rw [if_pos hlt, if_neg (by omega), if_pos (by omega)]
      rfl
    · rw [if_neg (by omega), if_pos heq, if_pos (by omega)]
      rfl
    · rw [if_neg (by omega), if_neg (by omega), if_neg (by omega)]
      rfl

/-- Dealing loses nothing and doubles nothing. -/
theorem flatMap_deal_perm {count : Nat} (hcount : 0 < count)
    (entries : List (ChunkKey × ChunkDoc)) :
    ((Lane.deal count entries).flatMap (·.pending)).Perm entries := by
  have hdeal : ∀ numbered : List ((ChunkKey × ChunkDoc) × Nat),
      ((List.range count).flatMap fun lane =>
        numbered.filterMap fun e => if e.2 % count = lane then some e.1 else none).Perm
        (numbered.map (·.1)) := by
    intro numbered
    induction numbered with
    | nil => simp
    | cons entry numbered ih =>
      obtain ⟨e, i⟩ := entry
      have hcons : ∀ lane, ((e, i) :: numbered).filterMap
          (fun e => if e.2 % count = lane then some e.1 else none)
            = (if i % count = lane then [e] else []) ++
              numbered.filterMap fun e => if e.2 % count = lane then some e.1 else none := by
        intro lane
        rw [List.filterMap_cons]
        by_cases h : i % count = lane <;> simp [h]
      simp only [hcons]
      refine (List.flatMap_append_perm _ _ _).symm.trans ?_
      rw [flatMap_range_singleton, if_pos (Nat.mod_lt i hcount)]
      exact ih.cons e
  rw [Lane.deal, List.flatMap_map]
  refine (hdeal entries.zipIdx).trans ?_
  rw [List.zipIdx_map_fst]

theorem failure?_of_mem_deal {count : Nat} {lane : Lane} (h : lane ∈ Lane.deal count entries) :
    lane.failure? = none := by
  obtain ⟨i, _, rfl⟩ := List.mem_map.mp h
  rfl

/-! ## All chunks of a record -/

theorem chunkEntries_unique {pieces : List Chunk} (hnumbered : Chunk.Numbered pieces)
    (id : StoreId) (writer : UInt64) :
    ∀ a ∈ chunkEntries id writer pieces, ∀ b ∈ chunkEntries id writer pieces,
      a.1 = b.1 → a = b := by
  intro a ha b hb hkey
  obtain ⟨c, hc, rfl⟩ := List.mem_map.mp ha
  obtain ⟨d, hd, rfl⟩ := List.mem_map.mp hb
  rw [hnumbered.eq_of_index_eq hc hd (ChunkKey.mk.inj hkey).2.2]

theorem chunkEntries_distinct {pieces : List Chunk} (hnumbered : Chunk.Numbered pieces)
    (id : StoreId) (writer : UInt64) :
    (chunkEntries id writer pieces).Pairwise fun a b => a.1 ≠ b.1 := by
  rw [chunkEntries, List.pairwise_map]
  refine hnumbered.pairwise_index_lt.imp fun {c d} hcd heq => ?_
  rw [(ChunkKey.mk.inj heq).2.2] at hcd
  exact UInt32.lt_irrefl _ hcd

/-- In at least one lane, all chunks of a record are dealt. -/
theorem flatMap_deal_chunkEntries_perm {parallelism : Nat} (hparallelism : 0 < parallelism)
    (id : StoreId) (writer : UInt64) (pieces : List Chunk) :
    ((Lane.deal (min parallelism pieces.length) (chunkEntries id writer pieces)).flatMap
      (·.pending)).Perm (chunkEntries id writer pieces) := by
  rcases Nat.eq_zero_or_pos pieces.length with hzero | hpos
  · rw [List.eq_nil_of_length_eq_zero hzero, List.length_nil, Nat.min_zero]
    exact .nil
  · exact flatMap_deal_perm (Nat.lt_min.mpr ⟨hparallelism, hpos⟩) _

/-- Lanes to which the chunks of a writer who has none yet were dealt are at work. -/
theorem atWork_deal {parallelism : Nat} (hparallelism : 0 < parallelism) {id : StoreId}
    {writer : UInt64} {pieces : List Chunk} (hnumbered : Chunk.Numbered pieces)
    (hnone : ∀ key, key.store = id → key.writer = writer → base.find key = none) :
    AtWork base (chunkEntries id writer pieces) False
      (Lane.deal (min parallelism pieces.length) (chunkEntries id writer pieces)) base := by
  have hmissing : ∀ e ∈ chunkEntries id writer pieces, base.find e.1 = none := by
    intro e he
    obtain ⟨c, _, rfl⟩ := List.mem_map.mp he
    exact hnone _ rfl rfl
  have hstart : Filling base (chunkEntries id writer pieces) (chunkEntries id writer pieces) False
      base :=
    ⟨chunkEntries_unique hnumbered id writer, rfl, rfl, fun _ _ => rfl, fun _ he => he,
      chunkEntries_distinct hnumbered id writer, hmissing,
      fun e he => Or.inr ⟨hmissing e he, Or.inl he⟩, fun _ he => Or.inr (Or.inl he)⟩
  have hdealt := flatMap_deal_chunkEntries_perm hparallelism id writer pieces
  refine ⟨(hstart.perm hdealt.symm).weaken False.elim, fun lane hlane e he => ?_⟩
  rw [failure?_of_mem_deal hlane] at he
  cases he

/-- Under a writer who has no chunks yet, all chunks of a record are written, or one of them is too
large; nobody else's chunks are touched. -/
theorem alone_writeChunks {parallelism : Nat} (hparallelism : 0 < parallelism)
    (schedule : List Nat) (id : StoreId) (writer : UInt64) {pieces : List Chunk}
    (hnumbered : Chunk.Numbered pieces) (s : Clocked ChunkedStore)
    (hnone : ∀ key, key.store = id → key.writer = writer → s.state.chunks.find key = none) :
    ∃ result chunks,
      (writeChunks parallelism schedule id writer pieces).alone s = (result, withChunks s chunks) ∧
      Filling s.state.chunks (chunkEntries id writer pieces) [] (∃ e, result = .error e) chunks ∧
      ∀ e, result = .error e →
        TooLarge s.state.chunks (chunkEntries id writer pieces) e := by
  obtain ⟨lanes, chunks', hfollow, hwork⟩ :=
    alone_follow schedule s (atWork_deal hparallelism hnumbered hnone)
  obtain ⟨result, chunks, hfinish, hfilling, hresult⟩ :=
    alone_finishAll (withChunks s chunks') hwork
  refine ⟨result, chunks, ?_, hfilling.weaken fun h => h.resolve_left not_false, hresult⟩
  unfold writeChunks
  simp only [Client.alone_bind, hfollow, hfinish]
  rfl

end ChunkedStore

end ContentVault
