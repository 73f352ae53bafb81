import ContentVault.Proofs.Store.Lanes
set_option autoImplicit false

/-!
# What lanes add

Whatever happens between their steps, lanes add what they were dealt and nothing else.  They
end without failure only if all of it was added at some moment, which is not to say that it is
still there.
-/

namespace ContentVault.Interleaving

open ChunkedStore

/-- The program does nothing but add some of the entries.  When it has added those in `added`, and
perhaps others, its answer and what it adds from then on fulfil `post`. -/
inductive Adds (entries : List (ChunkKey × ChunkDoc)) {α : Type}
    (post : α → List (ChunkKey × ChunkDoc) → Prop) :
    List (ChunkKey × ChunkDoc) → Client α → Prop where
  | done {added : List (ChunkKey × ChunkDoc)} (a : α) (h : post a added) :
      Adds entries post added (.done a)
  | insert {added : List (ChunkKey × ChunkDoc)} (key : ChunkKey) (doc : ChunkDoc)
      (next : Except StoreError Unit → Client α) (hmem : (key, doc) ∈ entries)
      (hok : Adds entries post ((key, doc) :: added) (next (.ok ())))
      (herror : ∀ e, Adds entries post added (next (.error e))) :
      Adds entries post added ((Client.insertChunk key doc).bind next)

section

variable {entries dealt added : List (ChunkKey × ChunkDoc)}

namespace Adds

variable {α β : Type} {post : α → List (ChunkKey × ChunkDoc) → Prop}
  {post' : β → List (ChunkKey × ChunkDoc) → Prop} {p : Client α}

theorem bind {f : α → Client β} (hp : Adds entries post added p)
    (hf : ∀ a added, post a added → Adds entries post' added (f a)) :
    Adds entries post' added (p.bind f) := by
  induction hp with
  | done a h => exact hf a _ h
  | insert key doc next hmem _ _ ihok iherror =>
    exact .insert key doc (fun b => (next b).bind f) hmem ihok iherror

/-- What was added stays so. -/
theorem subset (hp : Adds entries post added p) :
    Adds entries (fun a added' => post a added' ∧ added ⊆ added') added p := by
  suffices h : ∀ first, first ⊆ added →
      Adds entries (fun a added' => post a added' ∧ first ⊆ added') added p from
    h added (List.Subset.refl added)
  induction hp with
  | done a h => exact fun first hfirst => .done a ⟨h, hfirst⟩
  | insert key doc next hmem _ _ ihok iherror =>
    intro first hfirst
    exact .insert key doc next hmem (ihok first (List.subset_cons_of_subset _ hfirst))
      fun e => iherror e first hfirst

theorem weaken {post' : α → List (ChunkKey × ChunkDoc) → Prop} (hp : Adds entries post added p)
    (himp : ∀ a added, post a added → post' a added) : Adds entries post' added p := by
  induction hp with
  | done a h => exact .done a (himp a _ h)
  | insert key doc next hmem _ _ ihok iherror => exact .insert key doc next hmem ihok iherror

end Adds

/-! ## Lanes at work -/

/-- Whatever the lane has still to add is among the entries. -/
def Within (entries : List (ChunkKey × ChunkDoc)) (lane : Lane) : Prop :=
  ∀ e ∈ lane.pending, e ∈ entries

/-- Lanes have only entries to add, one that failed adds nothing any more, and if none failed, each
entry that was dealt was added or is still to be added. -/
structure Underway (entries dealt : List (ChunkKey × ChunkDoc)) (lanes : List Lane)
    (added : List (ChunkKey × ChunkDoc)) : Prop where
  within : ∀ lane ∈ lanes, Within entries lane
  stopped : ∀ lane ∈ lanes, lane.failure? ≠ none → lane.pending = []
  accounted : (∀ lane ∈ lanes, lane.failure? = none) →
    ∀ e ∈ dealt, e ∈ added ∨ ∃ lane ∈ lanes, e ∈ lane.pending

/-- A lane goes on, if it fails for good and otherwise loses nothing. -/
theorem Underway.replace {before after : List Lane} {lane lane' : Lane}
    {added' : List (ChunkKey × ChunkDoc)}
    (h : Underway entries dealt (before ++ lane :: after) added)
    (hpending : lane'.pending ⊆ lane.pending)
    (hstopped : lane'.failure? ≠ none → lane'.pending = []) (hadded : added ⊆ added')
    (hgoes : lane'.failure? = none → lane.failure? = none ∧
      ∀ e ∈ lane.pending, e ∈ added' ∨ e ∈ lane'.pending) :
    Underway entries dealt (before ++ lane' :: after) added' := by
  have hmem : ∀ x other : Lane, other ∈ before ++ x :: after ↔
      other = x ∨ other ∈ before ++ after := by
    intro x other
    simp only [List.mem_append, List.mem_cons]
    exact or_left_comm
  have hlane := (hmem lane lane).mpr (Or.inl rfl)
  have hother : ∀ other ∈ before ++ after, other ∈ before ++ lane :: after :=
    fun other hother => (hmem lane other).mpr (Or.inr hother)
  refine ⟨fun x hx => ?_, fun x hx => ?_, fun hok e he => ?_⟩
  · rcases (hmem lane' x).mp hx with rfl | hx
    · exact fun e he => h.within lane hlane e (hpending he)
    · exact h.within x (hother x hx)
  · rcases (hmem lane' x).mp hx with rfl | hx
    · exact hstopped
    · exact h.stopped x (hother x hx)
  · obtain ⟨hlaneOk, hlanePending⟩ := hgoes (hok lane' ((hmem lane' lane').mpr (Or.inl rfl)))
    have hbefore : ∀ x ∈ before ++ lane :: after, x.failure? = none := by
      intro x hx
      rcases (hmem lane x).mp hx with rfl | hx
      · exact hlaneOk
      · exact hok x ((hmem lane' x).mpr (Or.inr hx))
    rcases h.accounted hbefore e he with he | ⟨x, hx, he⟩
    · exact Or.inl (hadded he)
    · rcases (hmem lane x).mp hx with rfl | hx
      · rcases hlanePending e he with he | he
        · exact Or.inl he
        · exact Or.inr ⟨lane', (hmem lane' lane').mpr (Or.inl rfl), he⟩
      · exact Or.inr ⟨x, (hmem lane' x).mpr (Or.inr hx), he⟩

theorem adds_step {before after : List Lane} {lane : Lane}
    (h : Underway entries dealt (before ++ lane :: after) added) :
    Adds entries (fun lane' added => Underway entries dealt (before ++ lane' :: after) added) added
      lane.step := by
  have hlane : lane ∈ before ++ lane :: after := List.mem_append_right before List.mem_cons_self
  have hwithin := h.within lane hlane
  rw [Lane.step]
  split
  · exact .done lane h
  next key doc rest hpending =>
    have hworking : lane.failure? = none := by
      by_contra hfailed
      rw [h.stopped lane hlane hfailed] at hpending
      cases hpending
    rw [Within, hpending] at hwithin
    refine .insert key doc _ (hwithin _ List.mem_cons_self) (.done _ ?_) fun e => .done _ ?_
    · refine h.replace (hpending ▸ List.subset_cons_self _ rest) (fun hfailed => absurd rfl hfailed)
        (List.subset_cons_self _ added) fun _ => ⟨hworking, fun e he => ?_⟩
      rw [hpending] at he
      rcases List.mem_cons.mp he with rfl | he
      · exact Or.inl List.mem_cons_self
      · exact Or.inr he
    · refine h.replace (List.nil_subset _) (fun _ => rfl) (List.Subset.refl _) fun hok => ?_
      cases hok

theorem adds_follow (schedule : List Nat) {lanes : List Lane}
    (h : Underway entries dealt lanes added) :
    Adds entries (Underway entries dealt) added (Lane.follow schedule lanes) := by
  induction schedule generalizing lanes added with
  | nil => exact .done lanes h
  | cons i schedule ih =>
    rw [Lane.follow]
    split
    · exact ih h
    next lane hlane =>
      obtain ⟨hi, hget⟩ := List.getElem?_eq_some_iff.mp hlane
      have hlanes : lanes = lanes.take i ++ lane :: lanes.drop (i + 1) := by
        rw [← hget, List.getElem_cons_drop, List.take_append_drop]
      rw [hlanes] at h
      refine (adds_step h).bind fun lane' added hlane' => ih ?_
      rwa [List.set_eq_take_append_cons_drop, if_pos hi]

/-! ## Lanes that come to their end -/

theorem adds_insertAll {pending : List (ChunkKey × ChunkDoc)} (h : ∀ e ∈ pending, e ∈ entries) :
    Adds entries (fun failure? added => failure? = none → pending ⊆ added) added
      (Lane.insertAll pending) := by
  induction pending generalizing added with
  | nil => exact .done none fun _ => List.nil_subset _
  | cons entry rest ih =>
    have hrest := List.forall_mem_cons.mp h
    refine .insert entry.1 entry.2 _ hrest.1 ?_ fun e => .done _ fun hok => by cases hok
    refine (ih hrest.2).subset.weaken fun failure? added hadded hok => ?_
    exact List.cons_subset.mpr ⟨hadded.2 List.mem_cons_self, hadded.1 hok⟩

theorem adds_finish {lane : Lane} (h : Within entries lane) :
    Adds entries (fun failure? added => failure? = none →
      lane.failure? = none ∧ lane.pending ⊆ added) added lane.finish := by
  rw [Lane.finish]
  split
  · exact .done _ fun hok => by cases hok
  next hworking =>
    exact (adds_insertAll h).weaken fun failure? added hadded hok => ⟨hworking, hadded hok⟩

theorem adds_finishAll {lanes : List Lane} (h : ∀ lane ∈ lanes, Within entries lane) :
    Adds entries (fun answer added => answer = .ok () →
      ∀ lane ∈ lanes, lane.failure? = none ∧ lane.pending ⊆ added) added
      (Lane.finishAll lanes) := by
  induction lanes generalizing added with
  | nil => exact .done _ fun _ lane hlane => by cases hlane
  | cons lane lanes ih =>
    have hrest := List.forall_mem_cons.mp h
    refine (adds_finish hrest.1).bind fun failure? first hfirst => ?_
    refine (ih hrest.2).subset.bind fun answer added hadded => .done _ fun hok => ?_
    cases failure? with
    | some e => cases hok
    | none =>
      obtain ⟨hlane, hpending⟩ := hfirst rfl
      exact List.forall_mem_cons.mpr
        ⟨⟨hlane, List.Subset.trans hpending hadded.2⟩, hadded.1 hok⟩

/-! ## All lanes of a record -/

theorem within_deal (count : Nat) (lane : Lane) (h : lane ∈ Lane.deal count entries) :
    Within entries lane := by
  obtain ⟨i, _, rfl⟩ := List.mem_map.mp h
  intro e he
  obtain ⟨⟨e', j⟩, hmem, hsome⟩ := List.mem_filterMap.mp he
  have hfst := List.fst_mem_of_mem_zipIdx hmem
  simp only [Option.ite_none_right_eq_some, Option.some.injEq] at hsome
  exact hsome.2 ▸ hfst

theorem underway_deal (count : Nat) :
    Underway entries ((Lane.deal count entries).flatMap (·.pending)) (Lane.deal count entries)
      [] := by
  refine ⟨within_deal count, fun lane hlane hfailed => ?_, fun _ e he => Or.inr ?_⟩
  · exact absurd (failure?_of_mem_deal hlane) hfailed
  · exact List.mem_flatMap.mp he

/-- A record is written without failure only if all that was dealt to the lanes was added. -/
theorem adds_writeChunks (parallelism : Nat) (schedule : List Nat) (id : StoreId)
    (writer : UInt64) (pieces : List Chunk) :
    Adds (chunkEntries id writer pieces) (fun answer added => answer = .ok () →
      (Lane.deal (min parallelism pieces.length) (chunkEntries id writer pieces)).flatMap
        (·.pending) ⊆ added) [] (writeChunks parallelism schedule id writer pieces) := by
  refine (adds_follow schedule (underway_deal _)).bind fun lanes first hlanes => ?_
  refine (adds_finishAll hlanes.within).subset.weaken fun answer added hadded hok e he => ?_
  have hfinished := hadded.1 hok
  rcases hlanes.accounted (fun lane hlane => (hfinished lane hlane).1) e he
    with he | ⟨lane, hlane, he⟩
  · exact hadded.2 he
  · exact (hfinished lane hlane).2 he

/-- In at least one lane, that is every chunk of the record. -/
theorem adds_writeChunks_of_pos {parallelism : Nat} (hparallelism : 0 < parallelism)
    (schedule : List Nat) (id : StoreId) (writer : UInt64) (pieces : List Chunk) :
    Adds (chunkEntries id writer pieces)
      (fun answer added => answer = .ok () → chunkEntries id writer pieces ⊆ added) []
      (writeChunks parallelism schedule id writer pieces) := by
  have hdealt := flatMap_deal_chunkEntries_perm hparallelism id writer pieces
  refine (adds_writeChunks parallelism schedule id writer pieces).weaken
    fun answer added hadded hok e he => hadded hok ?_
  exact hdealt.mem_iff.mpr he

end

end ContentVault.Interleaving
