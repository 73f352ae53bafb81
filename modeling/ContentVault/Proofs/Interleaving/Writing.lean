import ContentVault.Proofs.Interleaving.Adding
import ContentVault.Proofs.Interleaving.Quiet
set_option autoImplicit false

/-!
# Writing while others write

A commit writes chunks of one draft only, in whatever order its lanes are scheduled.  As long
as it alone writes for its owner, all chunks of the owner are pieces of that draft, and the
step that marks the record committed makes it the winner.
-/

namespace ContentVault.Interleaving

open ChunkedStore

/-! ## Programs that add chunks -/

/-- The program does nothing but add some of the entries, and answers as `post` says. -/
inductive Writes (entries : List (ChunkKey × ChunkDoc)) {α : Type} (post : α → Prop) :
    Client α → Prop where
  | done (a : α) (h : post a) : Writes entries post (.done a)
  | insert (key : ChunkKey) (doc : ChunkDoc) (next : Except StoreError Unit → Client α)
      (hmem : (key, doc) ∈ entries) (hnext : ∀ b, Writes entries post (next b)) :
      Writes entries post ((Client.insertChunk key doc).bind next)

theorem Adds.writes {entries added : List (ChunkKey × ChunkDoc)} {α : Type}
    {post : α → List (ChunkKey × ChunkDoc) → Prop} {p : Client α} (hp : Adds entries post added p) :
    Writes entries (fun _ => True) p := by
  induction hp with
  | done a h => exact .done a trivial
  | insert key doc next hmem _ _ ihok iherror =>
    refine .insert key doc next hmem fun b => ?_
    cases b with
    | ok _ => exact ihok
    | error e => exact iherror e

theorem writes_writeChunks (parallelism : Nat) (schedule : List Nat) (id : StoreId)
    (writer : UInt64) (pieces : List Chunk) :
    Writes (chunkEntries id writer pieces) (fun _ => True)
      (writeChunks parallelism schedule id writer pieces) :=
  (adds_writeChunks parallelism schedule id writer pieces).writes

/-! ## Taking over and giving up an owner's chunks -/

/-- The authors when the owner has another draft. -/
def assign (author : Owner → Option Draft) (owner : Owner) (draft? : Option Draft) :
    Owner → Option Draft :=
  fun owner' => if owner' = owner then draft? else author owner'

theorem assign_self (author : Owner → Option Draft) (owner : Owner) (draft? : Option Draft) :
    assign author owner draft? owner = draft? := if_pos rfl

theorem assign_of_ne (author : Owner → Option Draft) {owner owner' : Owner}
    (draft? : Option Draft) (h : owner' ≠ owner) :
    assign author owner draft? owner' = author owner' := if_neg h

section

variable {y : View} {owner : Owner}

/-- A step that changes chunks of one owner only. -/
theorem guarantee_chunks (chunks : Collection ChunkKey ChunkDoc) (draft? : Option Draft) :
    Guarantee (some owner) y
      (y.after { y.store with chunks } (assign y.author owner draft?)) := by
  refine ⟨Grows.refl y, fun owner' howner' => ⟨?_, id⟩⟩
  exact assign_of_ne _ _ fun h => howner' (h ▸ rfl)

/-- The chunks of an owner who has not committed may be changed, if they are pieces of one
draft. -/
theorem Sound.chunks (hy : Sound y) (huncommitted : ¬ y.CommittedBy owner)
    {chunks : Collection ChunkKey ChunkDoc} {draft? : Option Draft}
    (hothers : ∀ key doc, chunks.find key = some doc → (key.store, key.writer) ≠ owner →
      y.store.chunks.find key = some doc)
    (hown : ∀ key doc, chunks.find key = some doc → (key.store, key.writer) = owner →
      ∃ d, draft? = some d ∧ doc.toChunk key ∈ d.pieces) :
    Sound (y.after { y.store with chunks } (assign y.author owner draft?)) := by
  refine ⟨fun key doc hdoc => ?_, fun id m hm => ?_, hy.unwon, hy.genuine⟩
  · change ∃ d, assign y.author owner draft? (key.store, key.writer) = some d ∧ _
    by_cases hkey : (key.store, key.writer) = owner
    · rw [hkey, assign_self]
      exact hown key doc hdoc hkey
    · rw [assign_of_ne _ _ hkey]
      exact hy.authored key doc (hothers key doc hdoc hkey)
  · change ∃ d, assign y.author owner draft? (id, m.writer) = some d ∧ _
    have hne : (id, m.writer) ≠ owner := by
      rintro rfl
      exact huncommitted ⟨m, hm, rfl⟩
    rw [assign_of_ne _ _ hne]
    exact hy.described id m hm

end

/-- The owner has not committed, and writes nothing but the draft. -/
structure Writing (owner : Owner) (d : Draft) (x : View) : Prop where
  sound : Sound x
  uncommitted : ¬ x.CommittedBy owner
  author : ∀ d', x.author owner = some d' → d' = d

theorem Writing.rely {owner : Owner} {d : Draft} {x y : View} (h : Writing owner d x)
    (hy : Sound y) (hxy : Rely (some owner) x y) : Writing owner d y := by
  have hspares := hxy.spares owner rfl
  refine ⟨hy, fun hcommitted => h.uncommitted (hspares.uncommitted hcommitted), fun d' hd' => ?_⟩
  exact h.author d' (hspares.author_eq ▸ hd')

/-- The chunks that a draft leaves under its owner. -/
def Draft.entries (d : Draft) (owner : Owner) : List (ChunkKey × ChunkDoc) :=
  chunkEntries owner.1 owner.2 d.pieces

theorem Writing.safe_writes {owner : Owner} {d : Draft} {α : Type} {post : α → Prop} {p : Client α}
    (hp : Writes (d.entries owner) post p) {x : View} (hx : Writing owner d x) :
    Safe (some owner) (fun _ y => Writing owner d y) p x := by
  induction hp generalizing x with
  | done a h => exact hx
  | insert key doc next hmem _ ih =>
    refine ⟨hx.sound, fun y hsound hxy clock => ⟨assign y.author owner (some d), ?_⟩⟩
    have hy := hx.rely hsound hxy
    obtain ⟨c, hc, hentry⟩ := List.mem_map.mp hmem
    cases hentry
    refine ⟨guarantee_chunks _ _, ih _ ⟨?_, hy.uncommitted, fun d' hd' => ?_⟩⟩
    · refine hsound.chunks hy.uncommitted (fun key doc hdoc hkey => ?_) fun key doc hdoc hkey => ?_
      · rcases Collection.find_of_find_insert hdoc with h | h
        · exact h
        · cases h
          exact absurd rfl hkey
      · refine ⟨d, rfl, ?_⟩
        rcases Collection.find_of_find_insert hdoc with h | h
        · obtain ⟨d', hauthor, hpiece⟩ := hsound.authored key doc h
          rw [hkey] at hauthor
          exact hy.author d' hauthor ▸ hpiece
        · cases h
          exact hc
    · change assign y.author owner (some d) owner = some d' at hd'
      rw [assign_self] at hd'
      exact (Option.some.inj hd').symm

/-! ## Giving up and winning -/

/-- Nothing is left of a writer's draft, or it is the committed one. -/
def Settled (owner : Owner) (x : View) : Prop :=
  x.author owner = none ∨ x.CommittedBy owner

theorem Settled.rely {owner : Owner} {x y : View} (h : Settled owner x)
    (hxy : Rely (some owner) x y) : Settled owner y := by
  rcases h with h | h
  · exact Or.inl ((hxy.spares owner rfl).author_eq.trans h)
  · exact Or.inr (hxy.grows.committedBy h)

theorem Writing.safe_abandon {r : Reservation StoreId} {d : Draft} {x : View}
    (hx : Writing (r.id, r.lease.token) d x) (e : StoreError)
    {post : Except StoreError Unit → View → Prop}
    (hpost : ∀ y, Sound y → Settled (r.id, r.lease.token) y → post (.error e) y) :
    Safe (some (r.id, r.lease.token)) post (abandon r.id r.lease.token e) x := by
  refine ⟨hx.sound, fun y hsound hxy clock =>
    ⟨assign y.author (r.id, r.lease.token) none, guarantee_chunks _ _, ?_⟩⟩
  have hy := hx.rely hsound hxy
  have hpurge := ChunkedStore.find_purge y.store r.id (· == r.lease.token)
  refine hpost _ (hsound.chunks hy.uncommitted (fun key doc hdoc _ => ?_)
    fun key doc hdoc hkey => ?_) ?_
  · have hkept := (hpurge key).symm.trans hdoc
    split at hkept
    · cases hkept
    · exact hkept
  · rw [Prod.mk.injEq] at hkey
    have hgone := (hpurge key).symm.trans hdoc
    rw [if_pos ⟨hkey.1, beq_iff_eq.mpr hkey.2⟩] at hgone
    cases hgone
  · exact Or.inl (assign_self y.author _ none)

theorem winners_cons (id : StoreId) (o : Outcome) (history : List Outcome) :
    winners id (o :: history) = (o.call.win? id o.answer).toList ++ winners id history := by
  rw [winners, List.filterMap_cons]
  cases o.call.win? id o.answer <;> rfl

/-- A call that does not commit anything may be put down. -/
theorem Sound.log {x : View} (hx : Sound x) {o : Outcome}
    (hwin : ∀ id, o.call.win? id o.answer = none) (hgenuine : Genuine x.history o) :
    Sound (x.log o) := by
  have hwinners : ∀ id, winners id (o :: x.history) = winners id x.history := by
    intro id
    rw [winners_cons, hwin id]
    rfl
  have hstill : ∀ o', Genuine x.history o' → Genuine (o :: x.history) o' := by
    intro o' h record hrecord
    rw [hwinners]
    exact h record hrecord
  refine ⟨hx.authored, fun id m hm => ?_, fun id hm => ?_, fun o' ho' => ?_⟩
  · obtain ⟨d, hauthor, hdescribes, h⟩ := hx.described id m hm
    exact ⟨d, hauthor, hdescribes, (hwinners id).trans h⟩
  · exact (hwinners id).trans (hx.unwon id hm)
  · rcases List.mem_cons.mp ho' with rfl | ho'
    · exact hstill _ hgenuine
    · exact hstill o' (hx.genuine o' ho')

end ContentVault.Interleaving
