import ContentVault.Proofs.Interleaving.Safe
import ContentVault.Proofs.Store.Steps
set_option autoImplicit false

/-!
# Quiet steps

Most steps add no chunk and commit nothing: they reserve, give up, purge, read, or set a
status.  Such a step keeps every store sound, whoever takes it and whenever.
-/

namespace ContentVault.Interleaving

/-- No chunk is new, and what is committed is the same up to the status. -/
structure Quiet (s t : ChunkedStore) : Prop where
  shrinks : ∀ key doc, t.chunks.find key = some doc → s.chunks.find key = some doc
  committed : ∀ id, ∃ status, t.meta? id = (s.meta? id).map fun m => { m with status }

namespace Quiet

variable {s t : ChunkedStore}

theorem kept (h : Quiet s t) {id : StoreId} {m : StoreMeta} (hm : s.meta? id = some m) :
    ∃ status, t.meta? id = some { m with status } := by
  obtain ⟨status, ht⟩ := h.committed id
  exact ⟨status, by rw [ht, hm]; rfl⟩

theorem of_kept (h : Quiet s t) {id : StoreId} {m : StoreMeta} (hm : t.meta? id = some m) :
    ∃ m' status, s.meta? id = some m' ∧ m = { m' with status } := by
  obtain ⟨status, ht⟩ := h.committed id
  rw [ht] at hm
  obtain ⟨m', hm', rfl⟩ := Option.map_eq_some_iff.mp hm
  exact ⟨m', status, hm', rfl⟩

theorem uncommitted (h : Quiet s t) {id : StoreId} (hm : t.meta? id = none) :
    s.meta? id = none := by
  obtain ⟨status, ht⟩ := h.committed id
  rw [ht] at hm
  exact Option.map_eq_none_iff.mp hm

protected theorem refl (s : ChunkedStore) : Quiet s s := by
  refine ⟨fun _ _ h => h, fun id => ?_⟩
  cases s.meta? id with
  | none => exact ⟨.ok, rfl⟩
  | some m => exact ⟨m.status, rfl⟩

end Quiet

theorem Sound.quiet {x : View} {t : ChunkedStore} (hx : Sound x) (h : Quiet x.store t) :
    Sound (x.after t x.author) := by
  constructor
  · intro key doc hdoc
    exact hx.authored key doc (h.shrinks key doc hdoc)
  · intro id m hm
    obtain ⟨m', status, hm', rfl⟩ := h.of_kept hm
    obtain ⟨d, hauthor, hdescribes, hwinners⟩ := hx.described id m' hm'
    exact ⟨d, hauthor, ⟨hdescribes.contentType, hdescribes.fileSize, hdescribes.chunkCount⟩,
      hwinners⟩
  · intro id hm
    exact hx.unwon id (h.uncommitted hm)
  · exact hx.genuine

theorem Quiet.guarantee {x : View} {t : ChunkedStore} (h : Quiet x.store t)
    (owner? : Option Owner) : Guarantee owner? x (x.after t x.author) := by
  refine ⟨fun id m hm => h.kept hm, fun owner _ => ⟨rfl, ?_⟩⟩
  rintro ⟨m, hm, hwriter⟩
  obtain ⟨m', status, hm', rfl⟩ := h.of_kept hm
  exact ⟨m', hm', hwriter⟩

/-! ## Which steps are quiet -/

section

variable (s : ChunkedStore) (id : StoreId)

theorem meta?_put (doc : StoreDoc) (id' : StoreId) :
    ({ s with stores := s.stores.put id doc } : ChunkedStore).meta? id'
      = if id' = id then doc.record? else s.meta? id' := by
  rw [ChunkedStore.meta?, Collection.find_put]
  split
  · rfl
  · rfl

theorem meta?_drop (id' : StoreId) :
    ({ s with stores := s.stores.drop id } : ChunkedStore).meta? id'
      = if id' = id then none else s.meta? id' := by
  rw [ChunkedStore.meta?, Collection.find_drop]
  split
  · rfl
  · rfl

/-- A blob document may be replaced by one with the same description. -/
theorem Quiet.put {doc : StoreDoc} (status : Status)
    (h : doc.record? = (s.meta? id).map fun m => { m with status }) :
    Quiet s { s with stores := s.stores.put id doc } := by
  refine ⟨fun _ _ h => h, fun id' => ?_⟩
  rw [meta?_put]
  by_cases hid : id' = id
  · rw [if_pos hid, hid]
    exact ⟨status, h⟩
  · rw [if_neg hid]
    exact (Quiet.refl s).committed id'

/-- A document of an identifier that is not committed may be deleted. -/
theorem Quiet.drop (h : s.meta? id = none) :
    Quiet s { s with stores := s.stores.drop id } := by
  refine ⟨fun _ _ h => h, fun id' => ?_⟩
  rw [meta?_drop]
  by_cases hid : id' = id
  · rw [if_pos hid, hid, h]
    exact ⟨.ok, rfl⟩
  · rw [if_neg hid]
    exact (Quiet.refl s).committed id'

/-- Chunks may be purged. -/
theorem Quiet.purge (doomed : UInt64 → Bool) :
    Quiet s { s with
      chunks := (s.chunks.deleteRangeWhere (.first id 0) (fun key => key.store == id)
        (fun key _ => doomed key.writer)).2 } := by
  refine ⟨fun key doc hdoc => ?_, fun id' => (Quiet.refl s).committed id'⟩
  rw [ChunkedStore.find_purge] at hdoc
  split at hdoc
  · cases hdoc
  · exact hdoc

end

/-! ## Programs of quiet steps -/

/-- Every step of the program is quiet, whatever the answers. -/
def IsQuiet {α : Type} : ChunkedStore.Client α → Prop
  | .done _ => True
  | .ask request next =>
    (∀ s : Clocked ChunkedStore, Quiet s.state (request s).2.state) ∧ ∀ b, IsQuiet (next b)

theorem IsQuiet.bind {α β : Type} {p : ChunkedStore.Client α} {f : α → ChunkedStore.Client β}
    (hp : IsQuiet p) (hf : ∀ a, IsQuiet (f a)) : IsQuiet (p.bind f) := by
  induction p with
  | done a => exact hf a
  | ask request next ih => exact ⟨hp.1, fun b => ih b (hp.2 b)⟩

theorem IsQuiet.safe {owner? : Option Owner} {α : Type} {post : α → View → Prop}
    {p : ChunkedStore.Client α} {x : View} (hp : IsQuiet p) (hx : Sound x)
    (hpost : ∀ a y, Sound y → post a y) : Safe owner? post p x := by
  induction p generalizing x with
  | done a => exact hpost a x hx
  | ask request next ih =>
    refine ⟨hx, fun y hy _ clock => ⟨y.author, ?_⟩⟩
    have hquiet := hp.1 ⟨y.store, clock⟩
    exact ⟨hquiet.guarantee owner?, ih _ (hp.2 _) (hy.quiet hquiet)⟩

section

variable (id : StoreId)

theorem isQuiet_purgeChunks (doomed : UInt64 → Bool) :
    IsQuiet (ChunkedStore.Client.purgeChunks id doomed) :=
  ⟨fun s => Quiet.purge s.state id doomed, fun _ => trivial⟩

/-- An identifier is claimed only if it is not committed. -/
theorem isQuiet_upsertStore (lease : Lease) (now : UInt64) :
    IsQuiet (ChunkedStore.Client.upsertStore id (.reserved id lease) (·.isClaimable now)) := by
  refine ⟨fun s => ?_, fun _ => trivial⟩
  rcases s.state.stores.upsertIf_cases id (.reserved id lease) (·.isClaimable now)
    with ⟨_, h⟩ | ⟨_, hall, h⟩ | ⟨_, _, h⟩
  · simp only [h]
    exact .refl s.state
  · simp only [h]
    refine Quiet.put s.state id .ok ?_
    have hmeta : s.state.meta? id = none := by
      rw [ChunkedStore.meta?]
      cases hfind : s.state.stores.find id with
      | none => rfl
      | some doc =>
        rw [hfind] at hall
        simp only [Option.all_some, Entry.isClaimable, Bool.and_eq_true, Option.isNone_iff_eq_none]
          at hall
        exact hall.1
    rw [hmeta]
    rfl
  · simp only [h]
    exact .refl s.state

/-- A reservation is given up only if the identifier is not committed. -/
theorem isQuiet_deleteStore (token : UInt64) :
    IsQuiet (ChunkedStore.Client.deleteStore id (·.isLeasedTo token)) := by
  refine ⟨fun s => ?_, fun _ => trivial⟩
  rcases s.state.stores.deleteIf_cases id (·.isLeasedTo token) with ⟨_, h⟩ | ⟨doc, hfind, hacc, h⟩
  · simp only [h]
    exact .refl s.state
  · simp only [h]
    refine Quiet.drop s.state id ?_
    simp only [Entry.isLeasedTo, Bool.and_eq_true, Option.isNone_iff_eq_none] at hacc
    rw [ChunkedStore.meta?, hfind]
    exact hacc.1

theorem isQuiet_claim (lease : Lease) (now : UInt64) :
    IsQuiet (ChunkedStore.claim id lease now) := by
  refine (isQuiet_upsertStore id lease now).bind fun claimed => ?_
  rcases claimed with e | _ | _
  · trivial
  · trivial
  · exact (isQuiet_purgeChunks id _).bind fun _ => trivial

theorem isQuiet_release (r : Reservation StoreId) : IsQuiet (ChunkedStore.release r) := by
  refine (isQuiet_deleteStore r.id r.lease.token).bind fun released => ?_
  cases released with
  | false => trivial
  | true =>
    rw [if_pos rfl]
    exact (isQuiet_purgeChunks r.id _).bind fun _ => trivial

/-- A status is set in a description that is there. -/
theorem isQuiet_setStatus (status : Status) :
    IsQuiet (ChunkedStore.Client.updateStore id (fun _ doc => doc.record?.isSome)
      (fun doc => { doc with record? := doc.record?.map fun m => { m with status } })) := by
  refine ⟨fun s => ?_, fun _ => trivial⟩
  simp only
  split
  · rcases s.state.stores.updateIf_cases id (fun doc => doc.record?.isSome)
        (fun doc => { doc with record? := doc.record?.map fun m => { m with status } })
      with ⟨_, h⟩ | ⟨doc, _, _, _, h⟩ | ⟨doc, hfind, _, _, h⟩
    · simp only [h]
      exact .refl s.state
    · simp only [h]
      exact .refl s.state
    · simp only [h]
      refine Quiet.put s.state id status ?_
      rw [ChunkedStore.meta?, hfind]
      rfl
  · exact .refl s.state

theorem isQuiet_updateStatus (status : Status) :
    IsQuiet (ChunkedStore.updateStatus id status) := by
  refine (isQuiet_setStatus id status).bind fun updated => ?_
  rcases updated with e | _ | _ <;> trivial

end

end ContentVault.Interleaving
