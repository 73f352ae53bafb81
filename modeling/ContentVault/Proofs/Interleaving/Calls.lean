import ContentVault.Proofs.Interleaving.Reading
import ContentVault.Proofs.Interleaving.Writing
import ContentVault.Proofs.Store.Steps
set_option autoImplicit false

/-!
# Every call is safe

A call ends with an answer that may be put down, and leaves chunks only if it made them part
of the committed record.
-/

namespace ContentVault.Interleaving

open ChunkedStore

/-- How a call has to leave a store. -/
structure Ended {α : Type} (call : Call α) (answer : α) (x : View) : Prop where
  sound : Sound (x.log ⟨call, answer⟩)
  settled : ∀ owner, call.owner? = some owner → Settled owner x

/-- A call that reads nothing and commits nothing may end at any time. -/
theorem Sound.ended {x : View} (hx : Sound x) {α : Type} {call : Call α} {answer : α}
    (hwin : ∀ id, call.win? id answer = none) (hrecords : call.records answer = [])
    (hsettled : ∀ owner, call.owner? = some owner → Settled owner x) : Ended call answer x := by
  refine ⟨hx.log hwin fun record hrecord => ?_, hsettled⟩
  rw [hrecords] at hrecord
  cases hrecord

/-! ## Committing -/

section

variable {lanes : UInt64} {schedule : List Nat} {r : Reservation StoreId} {d : Draft}

/-- A commit that fails is put down when its chunks are gone. -/
theorem ended_commit_error {record : ContentRecord} (e : StoreError) {x : View} (hx : Sound x)
    (hsettled : Settled (r.id, r.lease.token) x) :
    Ended (.commit lanes schedule r record) (.error e) x := by
  refine hx.ended (fun _ => rfl) rfl fun owner howner => ?_
  cases howner
  exact hsettled

theorem describes_metaOf (d : Draft) (writer : UInt64) :
    d.Describes (metaOf d.record d.pieces.length writer) := by
  refine ⟨rfl, rfl, ?_⟩
  rw [metaOf, UInt32.toNat_ofNat', Nat.mod_eq_of_lt]
  exact d.cut.numbered.length_lt

/-- The view when the record of a draft is marked committed. -/
def View.commit (y : View) (r : Reservation StoreId) (d : Draft) (doc : StoreDoc) : View :=
  y.after
    { y.store with
      stores := y.store.stores.put r.id
        (doc.commit (metaOf d.record d.pieces.length r.lease.token)) }
    (assign y.author (r.id, r.lease.token) (some d))

theorem View.meta?_commit (y : View) (doc : StoreDoc) (id : StoreId) :
    (y.commit r d doc).store.meta? id
      = if id = r.id then some (metaOf d.record d.pieces.length r.lease.token)
        else y.store.meta? id :=
  meta?_put y.store r.id _ id

theorem View.author_commit (y : View) (doc : StoreDoc) {owner : Owner}
    (h : owner ≠ (r.id, r.lease.token)) : (y.commit r d doc).author owner = y.author owner :=
  assign_of_ne y.author (some d) h

theorem View.guarantee_commit (y : View) (hfree : y.store.meta? r.id = none) (doc : StoreDoc) :
    Guarantee (some (r.id, r.lease.token)) y (y.commit r d doc) := by
  refine ⟨fun id m hm => ⟨m.status, ?_⟩, fun owner howner => ⟨?_, ?_⟩⟩
  · rw [y.meta?_commit, if_neg, hm]
    rintro rfl
    rw [hfree] at hm
    cases hm
  · exact y.author_commit doc fun h => howner (h ▸ rfl)
  · rintro ⟨m, hm, hwriter⟩
    rw [y.meta?_commit] at hm
    split at hm
    next hid =>
      cases hm
      exact absurd (congrArg some (Prod.ext hid.symm hwriter)) howner
    · exact ⟨m, hm, hwriter⟩

theorem winners_commit_self (history : List Outcome) (record : ContentRecord) :
    winners r.id (⟨.commit lanes schedule r record, .ok ()⟩ :: history)
      = record :: winners r.id history := by
  rw [winners_cons]
  simp [Call.win?]

theorem winners_commit_of_ne (history : List Outcome) (record : ContentRecord) {id : StoreId}
    (h : id ≠ r.id) :
    winners id (⟨.commit lanes schedule r record, .ok ()⟩ :: history) = winners id history := by
  rw [winners_cons]
  simp [Call.win?, h.symm]

/-- The step that marks a record committed makes its payload the winner. -/
theorem Writing.ended_commit {y : View} (hy : Writing (r.id, r.lease.token) d y)
    (hfree : y.store.meta? r.id = none) (doc : StoreDoc) :
    Ended (.commit lanes schedule r d.record) (.ok ()) (y.commit r d doc) := by
  have hnone := hy.sound.unwon r.id hfree
  refine ⟨⟨fun key chunk hchunk => ?_, fun id m hm => ?_, fun id hm => ?_, fun o ho => ?_⟩,
    fun owner howner => ?_⟩
  · obtain ⟨d', hauthor, hpiece⟩ := hy.sound.authored key chunk hchunk
    by_cases hkey : (key.store, key.writer) = (r.id, r.lease.token)
    · rw [hkey] at hauthor ⊢
      exact ⟨d, assign_self _ _ _, hy.author d' hauthor ▸ hpiece⟩
    · exact ⟨d', (y.author_commit doc hkey).trans hauthor, hpiece⟩
  · change (y.commit r d doc).store.meta? id = some m at hm
    rw [y.meta?_commit] at hm
    split at hm
    next hid =>
      cases hm
      subst hid
      refine ⟨d, assign_self _ _ _, describes_metaOf d _, ?_⟩
      exact (winners_commit_self ..).trans (congrArg (List.cons _) hnone)
    next hid =>
      obtain ⟨d', hauthor, hdescribes, hwinners⟩ := hy.sound.described id m hm
      refine ⟨d', ?_, hdescribes, (winners_commit_of_ne _ _ hid).trans hwinners⟩
      exact (y.author_commit doc fun h => hid (congrArg Prod.fst h)).trans hauthor
  · change (y.commit r d doc).store.meta? id = none at hm
    rw [y.meta?_commit] at hm
    split at hm
    · cases hm
    next hid => exact (winners_commit_of_ne _ _ hid).trans (hy.sound.unwon id hm)
  · rcases List.mem_cons.mp ho with rfl | ho
    · intro record hrecord
      cases hrecord
    · intro record hrecord
      obtain ⟨hcovers, payload, hwinners, hcopy⟩ := hy.sound.genuine o ho record hrecord
      refine ⟨hcovers, payload, (winners_commit_of_ne _ _ ?_).trans hwinners, hcopy⟩
      intro hid
      rw [hid, hnone] at hwinners
      cases hwinners
  · cases howner
    exact Or.inr ⟨_, (y.meta?_commit doc r.id).trans (if_pos rfl), rfl⟩

theorem Writing.safe_commitMeta {x : View} (hx : Writing (r.id, r.lease.token) d x) :
    Safe (some (r.id, r.lease.token)) (Ended (.commit lanes schedule r d.record))
      (commitMeta r (metaOf d.record d.pieces.length r.lease.token)) x := by
  refine Safe.request ⟨_, rfl⟩ hx.sound fun y hsound hxy clock => ?_
  have hy := hx.rely hsound hxy
  have habandon : ∀ e, Safe (some (r.id, r.lease.token))
      (Ended (.commit lanes schedule r d.record)) (abandon r.id r.lease.token e) y := fun e =>
    hy.safe_abandon e fun z hz hsettled => ended_commit_error e hz hsettled
  rcases alone_updateStore_cases ⟨y.store, clock⟩ r.id
      (fun now doc => doc.isHeldBy r.lease.token now)
      (·.commit (metaOf d.record d.pieces.length r.lease.token))
    with ⟨_, h⟩ | ⟨doc, hfind, ⟨_, h⟩ | ⟨_, _, h⟩ | ⟨hheld, _, h⟩⟩
  · rw [h]
    exact ⟨y.author, .refl _ y, habandon _⟩
  · rw [h]
    exact ⟨y.author, .refl _ y, habandon _⟩
  · rw [h]
    exact ⟨y.author, .refl _ y, habandon _⟩
  · rw [h]
    have hfree := meta?_of_isHeldBy hfind hheld
    exact ⟨_, y.guarantee_commit hfree doc, hy.ended_commit hfree doc⟩

/-- Chunks are written and the record is marked, or what was written is taken away. -/
theorem safe_store (config : ChunkedConfig) (record : ContentRecord) {x : View} (hx : Sound x)
    (hnone : x.author (r.id, r.lease.token) = none)
    (huncommitted : ¬ x.CommittedBy (r.id, r.lease.token)) :
    Safe (some (r.id, r.lease.token)) (Ended (.commit lanes schedule r record))
      (store config schedule r record) x := by
  rw [store]
  split
  · exact ended_commit_error _ hx (Or.inl hnone)
  next pieces hsplit =>
    let d : Draft := ⟨record, config.chunkSize.toNat, pieces, .of_split hsplit⟩
    have hwriting : Writing (r.id, r.lease.token) d x := by
      refine ⟨hx, huncommitted, fun d' hd' => ?_⟩
      rw [hnone] at hd'
      cases hd'
    have hwrites : Writes (d.entries (r.id, r.lease.token)) (fun _ => True)
        (writeChunks config.writeParallelism.toNat schedule r.id r.lease.token pieces) :=
      writes_writeChunks _ _ _ _ _
    refine Safe.bind ((hwriting.safe_writes hwrites).weaken fun written y hy => ?_)
    cases written with
    | error e => exact hy.safe_abandon e fun z hz hsettled => ended_commit_error e hz hsettled
    | ok _ => exact hy.safe_commitMeta

theorem safe_commit (config : ChunkedConfig) (record : ContentRecord) {x : View} (hx : Sound x)
    (hsettled : Settled (r.id, r.lease.token) x) :
    Safe (some (r.id, r.lease.token)) (Ended (.commit lanes schedule r record))
      (commit config schedule r record) x := by
  rw [commit]
  split
  · exact ended_commit_error _ hx hsettled
  · refine Safe.look hx (fun _ => rfl) fun y hy hxy _ => ?_
    have hy' := hsettled.rely hxy
    dsimp only [Program.done_bind]
    split
    · exact ended_commit_error _ hy hy'
    next doc hfind =>
      refine Safe.look hy (fun _ => rfl) fun z hz hyz clock => ?_
      have hz' := hy'.rely hyz
      change Safe _ _ (if doc.isHeldBy r.lease.token clock.read.1 then _ else _) z
      split
      next hheld =>
        -- The document that was read is not a committed one, and nobody else commits for us.
        have huncommitted : ¬ z.CommittedBy (r.id, r.lease.token) := by
          intro hz
          obtain ⟨m, hm, _⟩ := (hyz.spares _ rfl).uncommitted hz
          cases (meta?_of_isHeldBy hfind hheld).symm.trans hm
        exact safe_store config record hz (hz'.resolve_right huncommitted) huncommitted
      · exact ended_commit_error _ hz hz'

end

/-! ## All calls -/

theorem Call.safe (config : ChunkedConfig) {α : Type} (call : Call α) {x : View} (hx : Sound x)
    (hsettled : ∀ owner, call.owner? = some owner → Settled owner x) :
    Safe call.owner? (Ended call) (call.program config) x := by
  cases call with
  | claim id lease now =>
    exact (isQuiet_claim id lease now).safe hx fun _ _ hy =>
      hy.ended (fun _ => rfl) rfl fun _ h => by cases h
  | commit lanes schedule r record => exact safe_commit _ record hx (hsettled _ rfl)
  | release r =>
    exact (isQuiet_release r).safe hx fun _ _ hy =>
      hy.ended (fun _ => rfl) rfl fun _ h => by cases h
  | getStore id =>
    exact safe_getStore id hx fun _ _ hy hgenuine =>
      ⟨hy.log (fun _ => rfl) hgenuine, fun _ h => by cases h⟩
  | matchHash hash =>
    exact safe_matchHash hash hx fun _ _ hy hgenuine =>
      ⟨hy.log (fun _ => rfl) hgenuine, fun _ h => by cases h⟩
  | updateStatus id status =>
    exact (isQuiet_updateStatus id status).safe hx fun _ _ hy =>
      hy.ended (fun _ => rfl) rfl fun _ h => by cases h

end ContentVault.Interleaving
