import ContentVault.Proofs.Interleaving.Attempts
import ContentVault.Proofs.Interleaving.Winner
import Mathlib.Logic.Relation
set_option autoImplicit false

/-!
# Several commits under one reservation

So far a reservation was driven by one commit at a time.  Here several commits are given the
same one, and their steps fall between each other as they like.  Still at most one of them
succeeds, and what is read afterwards is never a mixture.  But the chunks of all of them
carry one token, and a commit that fails takes away every chunk under the token: the record
of the one that succeeded may be left without its chunks.  It is whole if none were taken.
-/

namespace ContentVault.Interleaving

open ChunkedStore

/-! ## Rivals -/

/-- A store, and what each of the rivals has still to do. -/
structure Contest (ι : Type) where
  store : ChunkedStore
  rivals : ι → Client (Except StoreError Unit)

/-- Neither the document of the blob nor its chunks are changed. -/
structure LeavesAlone (id : StoreId) (s t : ChunkedStore) : Prop where
  document : t.stores.find id = s.stores.find id
  chunks : ∀ key, key.store = id → t.chunks.find key = s.chunks.find key

namespace Contest

variable {ι : Type}

/-- All rivals are at their beginning. -/
def start (store : ChunkedStore) (r : Reservation StoreId) (attempts : ι → Attempt) : Contest ι :=
  ⟨store, fun i => (attempts i).program store.config r⟩

/-- The answer of a rival that is finished. -/
def answer? (c : Contest ι) (i : ι) : Option (Except StoreError Unit) :=
  match c.rivals i with
  | .done answer => some answer
  | .ask .. => none

/-- All rivals are finished. -/
def IsOver (c : Contest ι) : Prop := ∀ i, c.answer? i ≠ none

variable [DecidableEq ι]

/-- Lets a rival take its next step. -/
def step (c : Contest ι) (i : ι) (clock : Clock) : Contest ι :=
  match c.rivals i with
  | .done _ => c
  | .ask request next =>
    let (answer, after) := request ⟨c.store, clock⟩
    ⟨after.state, Function.update c.rivals i (next answer)⟩

/-- Lets rivals take steps, one after the other. -/
def run (c : Contest ι) (steps : List (ι × Clock)) : Contest ι :=
  steps.foldl (fun c (i, clock) => c.step i clock) c

/-- What happens next in a contest for a blob: a rival takes a step, or others work on other
blobs. -/
inductive Next (id : StoreId) (c : Contest ι) : Contest ι → Prop where
  | step (i : ι) (clock : Clock) : Next id c (c.step i clock)
  | elsewhere (store : ChunkedStore) (h : LeavesAlone id c.store store) : Next id c { c with store }

/-- What may come of a contest for a blob. -/
def Reaches (id : StoreId) : Contest ι → Contest ι → Prop := Relation.ReflTransGen (Next id)

/-- What may come of a contest while nobody takes chunks under the reservation away. -/
def ReachesUndisturbed (r : Reservation StoreId) : Contest ι → Contest ι → Prop :=
  Relation.ReflTransGen fun c d => Next r.id c d ∧ ChunksStay r c.store d.store

theorem reaches_run {id : StoreId} {c d : Contest ι} (h : Reaches id c d)
    (steps : List (ι × Clock)) : Reaches id c (d.run steps) := by
  induction steps generalizing d with
  | nil => exact h
  | cons s steps ih => exact ih (h.tail (.step s.1 s.2))

theorem reachesUndisturbed_run {r : Reservation StoreId} {c d : Contest ι}
    (h : ReachesUndisturbed r c d) (steps : List (ι × Clock))
    (hstay : ∀ n < steps.length,
      ChunksStay r (d.run (steps.take n)).store (d.run (steps.take (n + 1))).store) :
    ReachesUndisturbed r c (d.run steps) := by
  induction steps generalizing d with
  | nil => exact h
  | cons s steps ih =>
    refine ih (h.tail ⟨.step s.1 s.2, hstay 0 (Nat.zero_lt_succ _)⟩) fun n hn => ?_
    exact hstay (n + 1) (Nat.succ_lt_succ hn)

end Contest

/-- A read returns the record itself, or finds that chunks of it are missing. -/
def IntactOrShort (config : ChunkedConfig) (record : ContentRecord)
    (answer : Except StoreError (Option ContentRecord)) : Prop :=
  let expected := (pieces config record).length
  answer = .ok (some record) ∨
    ∃ found < expected, answer = .error (.corruptData
      s!"{record.id.token}: expected {expected} chunks, found {found}")

/-! ## What rivals keep -/

/-- The invariant of a contest: who won is described by the document of the blob, and every chunk
under the reservation belongs to a rival who won or is still writing. -/
structure Contest.Kept {ι : Type} (config : ChunkedConfig) (r : Reservation StoreId)
    (attempts : ι → Attempt) (c : Contest ι) (stage : ι → Stage) : Prop where
  contends : ∀ i, Contends config r (attempts i).record Concluded (c.rivals i) (stage i)
  authored : ∀ key doc, c.store.chunks.find key = some doc → key.store = r.id →
    key.writer = r.lease.token →
    ∃ i, stage i ≠ .idle ∧ (key, doc) ∈ chunksUnder config r (attempts i).record
  described : ∀ i, stage i = .won → Storable config r.id (attempts i).record ∧
    c.store.meta? r.id = some (descriptionOf config r.lease.token (attempts i).record)
  unique : ∀ i j, stage i = .won → stage j = .won → i = j

/-- What the rivals have added is there. -/
def Contest.Stored {ι : Type} (config : ChunkedConfig) (r : Reservation StoreId)
    (attempts : ι → Attempt) (c : Contest ι) (stage : ι → Stage) : Prop :=
  ∀ i, (stage i).Stored config r (attempts i).record c.store

namespace Contest.Kept

variable {ι : Type} {config : ChunkedConfig} {r : Reservation StoreId} {attempts : ι → Attempt}
  {c : Contest ι} {stage : ι → Stage}

/-- Nobody has begun, and nobody has written. -/
theorem start {store : ChunkedStore} (hclean : ∀ key doc, store.chunks.find key = some doc →
      key.store = r.id → key.writer ≠ r.lease.token) :
    Kept store.config r attempts (.start store r attempts) fun _ => .idle := by
  refine ⟨fun i => (attempts i).contends, fun key doc hfind hid hwriter => ?_, fun i hi => ?_,
    fun i j hi => ?_⟩
  · exact absurd hwriter (hclean key doc hfind hid)
  · cases hi
  · cases hi

theorem elsewhere (h : Kept config r attempts c stage) {store : ChunkedStore}
    (hstore : LeavesAlone r.id c.store store) :
    Kept config r attempts { c with store } stage := by
  refine ⟨h.contends, fun key doc hfind hid hwriter => ?_, fun i hi => ?_, h.unique⟩
  · exact h.authored key doc ((hstore.chunks key hid).symm.trans hfind) hid hwriter
  · refine ⟨(h.described i hi).1, ?_⟩
    rw [meta?, hstore.document]
    exact (h.described i hi).2

section

variable [DecidableEq ι] {i : ι} {stage' : Stage} {rest : Client (Except StoreError Unit)}

theorem contends_update (h : Kept config r attempts c stage)
    (hrest : Contends config r (attempts i).record Concluded rest stage') (j : ι) :
    Contends config r (attempts j).record Concluded (Function.update c.rivals i rest j)
      (Function.update stage i stage' j) := by
  by_cases hj : j = i
  · subst hj
    rw [Function.update_self, Function.update_self]
    exact hrest
  · rw [Function.update_of_ne hj, Function.update_of_ne hj]
    exact h.contends j

/-- Chunks of others, and those of a rival who has some, may be there after a move of the rival. -/
theorem authored_update (h : Kept config r attempts c stage) (hstage' : stage' ≠ .idle)
    {key : ChunkKey} {doc : ChunkDoc} (hfind : c.store.chunks.find key = some doc)
    (hid : key.store = r.id) (hwriter : key.writer = r.lease.token) :
    ∃ j, Function.update stage i stage' j ≠ .idle ∧
      (key, doc) ∈ chunksUnder config r (attempts j).record := by
  obtain ⟨j, hj, hmem⟩ := h.authored key doc hfind hid hwriter
  refine ⟨j, ?_, hmem⟩
  by_cases hji : j = i
  · rw [hji, Function.update_self]
    exact hstage'
  · rw [Function.update_of_ne hji]
    exact hj

/-- Who has won after a move by which nobody wins had won before. -/
theorem won_of_update (hstage' : stage' ≠ .won) {j : ι}
    (h : Function.update stage i stage' j = .won) : stage j = .won := by
  by_cases hj : j = i
  · rw [hj, Function.update_self] at h
    exact absurd h hstage'
  · rwa [Function.update_of_ne hj] at h

/-- A move of one rival keeps what all of them keep. -/
theorem move (h : Kept config r attempts c stage) {store : ChunkedStore}
    (hmove : Move config r (attempts i).record c.store (stage i) stage' store)
    (hrest : Contends config r (attempts i).record Concluded rest stage') :
    Kept config r attempts ⟨store, Function.update c.rivals i rest⟩
      (Function.update stage i stage') := by
  have hcontends := h.contends_update hrest
  cases hmove with
  | look =>
    rw [Function.update_eq_self] at hcontends ⊢
    exact ⟨hcontends, h.authored, h.described, h.unique⟩
  | write chunks added hchunks _ =>
    have hbusy : Stage.writing added ≠ .idle := nofun
    have hwon : ∀ {j}, Function.update stage i (.writing added) j = .won → stage j = .won :=
      won_of_update (by nofun)
    refine ⟨hcontends, fun key doc hfind hid hwriter => ?_, fun j hj => h.described j (hwon hj),
      fun j k hj hk => h.unique j k (hwon hj) (hwon hk)⟩
    rcases hchunks key doc hfind with hold | hnew
    · exact h.authored_update hbusy hold hid hwriter
    · refine ⟨i, ?_, hnew⟩
      rw [Function.update_self]
      exact hbusy
  | win doc hstorable _ hfree =>
    have hbusy : Stage.won ≠ .idle := nofun
    -- The step finds no description, so this is the first who wins.
    have honly : ∀ j, Function.update stage i .won j = .won → j = i := by
      intro j hj
      by_contra hne
      rw [Function.update_of_ne hne] at hj
      cases hfree.symm.trans (h.described j hj).2
    refine ⟨hcontends, fun key doc hfind hid hwriter => ?_, fun j hj => ?_,
      fun j k hj hk => (honly j hj).trans (honly k hk).symm⟩
    · exact h.authored_update hbusy hfind hid hwriter
    · rw [honly j hj]
      exact ⟨hstorable, (meta?_put c.store r.id _ r.id).trans (if_pos rfl)⟩
  | giveUp =>
    have hwon : ∀ {j}, Function.update stage i .idle j = .won → stage j = .won :=
      won_of_update (by nofun)
    refine ⟨hcontends, fun key doc hfind hid hwriter => ?_, fun j hj => h.described j (hwon hj),
      fun j k hj hk => h.unique j k (hwon hj) (hwon hk)⟩
    have hpurged := ChunkedStore.find_purge c.store r.id (· == r.lease.token) key
    rw [if_pos ⟨hid, beq_iff_eq.mpr hwriter⟩] at hpurged
    cases hpurged.symm.trans hfind

end

/-! ## One thing after the other -/

section

variable [DecidableEq ι]

/-- Whatever happens next, the rivals are somewhere, and if no chunk is lost by it, what they have
added is still there. -/
theorem next (h : Kept config r attempts c stage) {d : Contest ι} (hd : c.Next r.id d) :
    ∃ stage', Kept config r attempts d stage' ∧
      (Stored config r attempts c stage → ChunksStay r c.store d.store →
        Stored config r attempts d stage') := by
  cases hd with
  | elsewhere store hstore =>
    exact ⟨stage, h.elsewhere hstore, fun hstored hstay i => (hstored i).stay hstay⟩
  | step i clock =>
    have hcontends := h.contends i
    rw [Contest.step]
    split
    · exact ⟨stage, h, fun hstored _ => hstored⟩
    next request next hrival =>
      rw [hrival] at hcontends
      obtain ⟨stage', hmove, hnext⟩ := hcontends ⟨c.store, clock⟩
      refine ⟨_, h.move hmove hnext, fun hstored hstay => ?_⟩
      refine (Function.forall_update_iff stage fun j stage =>
        stage.Stored config r (attempts j).record _).mpr ⟨?_, fun j _ => ?_⟩
      · exact (hstored i).move hmove hstay
      · exact (hstored j).stay hstay

theorem reaches (h : Kept config r attempts c stage) {d : Contest ι} (hd : c.Reaches r.id d) :
    ∃ stage', Kept config r attempts d stage' := by
  induction hd with
  | refl => exact ⟨stage, h⟩
  | tail _ hnext ih =>
    obtain ⟨_, hkept⟩ := ih
    obtain ⟨stage', hkept', _⟩ := hkept.next hnext
    exact ⟨stage', hkept'⟩

theorem reachesUndisturbed (h : Kept config r attempts c stage)
    (hstored : Stored config r attempts c stage) {d : Contest ι}
    (hd : c.ReachesUndisturbed r d) :
    ∃ stage', Kept config r attempts d stage' ∧ Stored config r attempts d stage' := by
  induction hd with
  | refl => exact ⟨stage, h, hstored⟩
  | tail _ hnext ih =>
    obtain ⟨_, hkept, hheld⟩ := ih
    obtain ⟨stage', hkept', himp⟩ := hkept.next hnext.1
    exact ⟨stage', hkept', himp hheld hnext.2⟩

end

/-! ## When rivals are finished -/

theorem concluded (h : Kept config r attempts c stage) {i : ι} {answer : Except StoreError Unit}
    (hanswer : c.answer? i = some answer) : Concluded answer (stage i) := by
  have hcontends := h.contends i
  rw [answer?] at hanswer
  split at hanswer
  next hrival =>
    cases hanswer
    rw [hrival] at hcontends
    exact hcontends
  · cases hanswer

/-- When all are finished, only chunks of the winner are left. -/
theorem mem_winner (h : Kept config r attempts c stage) (hover : c.IsOver) {i : ι}
    (hwon : stage i = .won) {key : ChunkKey} {doc : ChunkDoc}
    (hfind : c.store.chunks.find key = some doc) (hid : key.store = r.id)
    (hwriter : key.writer = r.lease.token) :
    (key, doc) ∈ chunksUnder config r (attempts i).record := by
  obtain ⟨j, hj, hmem⟩ := h.authored key doc hfind hid hwriter
  obtain ⟨answer, hanswer⟩ := Option.ne_none_iff_exists'.mp (hover j)
  have hconcluded := h.concluded hanswer
  cases answer with
  | error e => exact absurd hconcluded hj
  | ok _ => exact h.unique j i hconcluded hwon ▸ hmem

/-- A read after a win makes a record of what is left. -/
theorem read_eq (h : Kept config r attempts c stage) {i : ι} (hwon : stage i = .won) :
    ((getStore r.id).unclocked c.store).1
      = (readRecord r.id (descriptionOf config r.lease.token (attempts i).record)
          (c.store.storedPieces r.id r.lease.token)).map some := by
  unfold Client.unclocked
  rw [alone_getStore, (h.described i hwon).2]
  rfl

theorem read_intactOrShort (h : Kept config r attempts c stage) (hover : c.IsOver) {i : ι}
    (hi : c.answer? i = some (.ok ())) :
    IntactOrShort config (attempts i).record ((getStore r.id).unclocked c.store).1 := by
  have hwon : stage i = .won := h.concluded hi
  have hstorable := (h.described i hwon).1
  have hpieces : (c.store.storedPieces r.id r.lease.token).Sublist
      (pieces config (attempts i).record) :=
    storedPieces_sublist hstorable.cut.numbered fun key doc hid hwriter hfind =>
      h.mem_winner hover hwon hfind hid hwriter
  rw [h.read_eq hwon]
  rcases hstorable.readRecord_of_sublist r.lease.token hpieces with hread | ⟨hlt, hread⟩
  · rw [hread]
    exact Or.inl rfl
  · refine Or.inr ⟨_, hlt, ?_⟩
    rw [hread, hstorable.id_eq]
    rfl

/-- If what was added is still there, nothing of the winner's record is missing. -/
theorem read_eq_ok (h : Kept config r attempts c stage)
    (hstored : Stored config r attempts c stage) (hover : c.IsOver) {i : ι}
    (hi : c.answer? i = some (.ok ())) :
    ((getStore r.id).unclocked c.store).1 = .ok (some (attempts i).record) := by
  have hwon : stage i = .won := h.concluded hi
  have hstorable := (h.described i hwon).1
  have hheld := hstored i
  rw [hwon] at hheld
  have hpieces : c.store.storedPieces r.id r.lease.token = pieces config (attempts i).record := by
    refine storedPieces_eq hstorable.cut.numbered fun key doc hid hwriter => ⟨fun hfind => ?_, ?_⟩
    · exact h.mem_winner hover hwon hfind hid hwriter
    · exact fun hmem => (hheld (key, doc) hmem).2
  rw [h.read_eq hwon, hpieces, hstorable.readRecord_eq]
  rfl

end Contest.Kept

/-! ## Contests in a store that was in use -/

/-- An owner who has not committed, and for whom nobody is writing, has no chunks. -/
theorem System.not_owned_of_isFree {config : ChunkedConfig} {actions : List Action} {owner : Owner}
    (hfree : (reached config actions).isFree owner = true)
    (huncommitted : (reached config actions).store.meta? owner.1 = none) {key : ChunkKey}
    {doc : ChunkDoc} (hfind : (reached config actions).store.chunks.find key = some doc) :
    (key.store, key.writer) ≠ owner := by
  rintro rfl
  obtain ⟨author, h⟩ := exists_upheld config actions
  obtain ⟨d, hauthor, _⟩ := h.sound.authored key doc hfind
  rcases h.settled (key.store, key.writer) with (hnone | ⟨m, hm, _⟩) | ⟨p, hp, hdrives⟩
  · cases hnone.symm.trans hauthor
  · cases huncommitted.symm.trans hm
  · rw [isFree, List.all_eq_true] at hfree
    exact absurd hdrives (bne_iff_ne.mp (hfree p hp))

/-- What may be relied on in a contest: there is one winner at most, its record is not mixed with
others, and it is whole unless chunks under the reservation were taken away. -/
structure Contest.Orderly {ι : Type} [DecidableEq ι] (config : ChunkedConfig)
    (r : Reservation StoreId) (attempts : ι → Attempt) (first : Contest ι) : Prop where
  single : ∀ c, first.Reaches r.id c → ∀ i j, c.answer? i = some (.ok ()) →
    c.answer? j = some (.ok ()) → i = j
  unmixed : ∀ c, first.Reaches r.id c → c.IsOver → ∀ i, c.answer? i = some (.ok ()) →
    IntactOrShort config (attempts i).record ((getStore r.id).unclocked c.store).1
  intact : ∀ c, first.ReachesUndisturbed r c → c.IsOver → ∀ i, c.answer? i = some (.ok ()) →
    ((getStore r.id).unclocked c.store).1 = .ok (some (attempts i).record)

/-- Several commits under one reservation contend in good order. -/
theorem contest_orderly (config : ChunkedConfig) (actions : List Action)
    (r : Reservation StoreId) {ι : Type} [DecidableEq ι] (attempts : ι → Attempt)
    (hfree : (System.reached config actions).isFree (r.id, r.lease.token) = true)
    (hreserved : (System.reached config actions).store.stores.find r.id
      = some (.reserved r.id r.lease)) :
    Contest.Orderly (System.reached config actions).store.config r attempts
      (.start (System.reached config actions).store r attempts) := by
  have huncommitted : (System.reached config actions).store.meta? r.id = none := by
    rw [meta?, hreserved]
    rfl
  have hstart : Contest.Kept _ r attempts
      (.start (System.reached config actions).store r attempts) fun _ => .idle :=
    .start fun key doc hfind hid hwriter =>
      System.not_owned_of_isFree hfree huncommitted hfind (Prod.ext hid hwriter)
  refine ⟨fun c hc i j hi hj => ?_, fun c hc hover i hi => ?_, fun c hc hover i hi => ?_⟩
  · obtain ⟨stage, h⟩ := hstart.reaches hc
    exact h.unique i j (h.concluded hi) (h.concluded hj)
  · obtain ⟨stage, h⟩ := hstart.reaches hc
    exact h.read_intactOrShort hover hi
  · obtain ⟨stage, h, hstored⟩ :=
      hstart.reachesUndisturbed (fun _ _ he => absurd he List.not_mem_nil) hc
    exact h.read_eq_ok hstored hover hi

/-- A rival who looks at the lease when the other is done does no harm. -/
theorem contest_orderly_of_refusal :
    ∃ (config : ChunkedConfig) (actions : List Action) (r : Reservation StoreId)
      (attempts : Bool → Attempt) (steps : List (Bool × Clock)),
      let s := System.reached config actions
      let first := Contest.start s.store r attempts
      let c := first.run steps
      s.isFree (r.id, r.lease.token) = true ∧
        s.store.stores.find r.id = some (.reserved r.id r.lease) ∧
        first.ReachesUndisturbed r c ∧ c.IsOver ∧ c.answer? true = some (.ok ()) ∧
        c.answer? false = some (.error (.idNotReserved "070000000000")) ∧
        ((getStore r.id).unclocked c.store).1 = .ok (some (attempts true).record) := by
  let r : Reservation StoreId := ⟨⟨7, 0⟩, ⟨1, 100⟩⟩
  let attempts (i : Bool) : Attempt := .ofByte r.id (if i then 1 else 2)
  let claiming : List Action :=
    [.start (.claim r.id r.lease 0), .step 0 (.still 0), .step 0 (.still 0)]
  let steps (i : Bool) (count : Nat) : List (Bool × Clock) := .replicate count (i, .still 20)
  refine ⟨⟨1, 128, 1⟩, claiming, r, attempts, steps true 4 ++ steps false 2, ?_⟩
  intro s first c
  have hfree : s.isFree (r.id, r.lease.token) = true := by decide +kernel
  have hreserved : s.store.stores.find r.id = some (.reserved r.id r.lease) := by decide +kernel
  have hundisturbed : first.ReachesUndisturbed r c :=
    Contest.reachesUndisturbed_run .refl _ (by decide +kernel)
  have hover : ∀ i, c.answer? i ≠ none := by decide +kernel
  have hwon : c.answer? true = some (.ok ()) := by decide +kernel
  refine ⟨hfree, hreserved, hundisturbed, hover, hwon, by decide +kernel, ?_⟩
  exact (contest_orderly ⟨1, 128, 1⟩ claiming r attempts hfree hreserved).intact c hundisturbed
    hover true hwon

/-- A rival who looked at the lease before takes the chunks of the winner away: they are in the way
of its own. -/
theorem exists_winner_robbed :
    ∃ (config : ChunkedConfig) (actions : List Action) (r : Reservation StoreId)
      (attempts : Bool → Attempt) (steps : List (Bool × Clock)),
      let s := System.reached config actions
      let first := Contest.start s.store r attempts
      let c := first.run steps
      first.Reaches r.id c ∧ config.validate = .ok () ∧ s.isFree (r.id, r.lease.token) = true ∧
        s.store.stores.find r.id = some (.reserved r.id r.lease) ∧
        (∀ step ∈ steps, r.lease.isLive step.2.reading = true) ∧
        c.answer? true = some (.ok ()) ∧
        c.answer? false = some (.error (.duplicateKey "chunks"
          "ChunkKey \x7b store: StoreId(00000007/0), writer: 1, index: 0 \x7d")) ∧
        ((getStore r.id).unclocked c.store).1
          = .error (.corruptData "070000000000: expected 1 chunks, found 0") := by
  let r : Reservation StoreId := ⟨⟨7, 0⟩, ⟨1, 100⟩⟩
  let attempts (i : Bool) : Attempt := .ofByte r.id (if i then 1 else 2)
  let claiming : List Action :=
    [.start (.claim r.id r.lease 0), .step 0 (.still 0), .step 0 (.still 0)]
  let steps (i : Bool) (count : Nat) : List (Bool × Clock) := .replicate count (i, .still 20)
  refine ⟨⟨1, 128, 1⟩, claiming, r, attempts, steps false 2 ++ steps true 4 ++ steps false 2, ?_⟩
  refine ⟨Contest.reaches_run .refl _, ?_⟩
  decide +kernel

end ContentVault.Interleaving
