import ContentVault.Proofs.Concurrent.CarefulIngest
set_option autoImplicit false

/-!
# Ingests side by side

Any number of ingests through one store of blobs are under way at once.  The invariant says that
the backend holds the blobs of a sound shelf, that every ingest is careful from where it is, and
that those which are between taking and giving back a lock have taken different ones.
-/

namespace ContentVault

open ContentStore (stripe)
open MemoryStore (SameRecords)
open Reserver (outcome)

/-! ## What a request does to the committed blobs -/

namespace MemoryStore

/-- A claim changes nothing that is committed. -/
theorem sameRecords_claimStore (m : MemoryStore) (id : StoreId) (lease : Lease) (now : UInt64) :
    SameRecords m (Backend.claimStore id lease now m).2 := m.stores.record?_claim id lease now

end MemoryStore

section

variable {σ : Type} [Backend σ] [SlotBackend σ] {w : World σ} {m : MemoryStore}

/-- A quiet request leaves the committed blobs as they are. -/
theorem World.sameRecords_answer (h : SlotBackend.Models w.backend m) {α : Type}
    {request : Request α} (hquiet : request.IsQuiet) :
    ∃ m', SlotBackend.Models (World.answer request w).2.backend m' ∧ SameRecords m m' := by
  cases request with
  | claimStore id lease now =>
    exact (SlotBackend.claimStore h id lease now).exists_models h (.refl m)
      (m.sameRecords_claimStore id lease now)
  | releaseStore r =>
    exact (SlotBackend.releaseStore h r).exists_models h (.refl m) (m.sameRecords_release r)
  | readClock kind =>
    refine ⟨m, ?_, .refl m⟩
    cases kind <;> exact h
  | readTimer => exact ⟨m, h, .refl m⟩
  | pause span => exact ⟨m, h, .refl m⟩
  | jitter low high => exact ⟨m, h, .refl m⟩
  | leaseToken => exact ⟨m, h, .refl m⟩
  | seedStamp => exact ⟨m, h, .refl m⟩
  | _ => exact hquiet.elim

omit [SlotBackend σ] in
/-- A quiet request leaves the locks as they are. -/
theorem World.locked_answer_of_isQuiet {α : Type} {request : Request α} (hquiet : request.IsQuiet)
    (w : World σ) : (World.answer request w).2.locked = w.locked := by
  cases request with
  | enter stripe => exact hquiet.elim
  | leave stripe => exact hquiet.elim
  | _ => exact World.locked_answer rfl w

/-- A commit fails and changes nothing, or adds the record where none was. -/
theorem World.commitStore_cases (h : SlotBackend.Models w.backend m) (kind : ClockKind)
    (r : Reservation StoreId) {record : ContentRecord}
    (hlength : record.content.length < UInt64.size) :
    let out := World.answer (.commitStore kind r record) w
    (∃ e, out.1 = .error e ∧ SlotBackend.Models out.2.backend m) ∨
    (out.1 = .ok () ∧ m.stores.record? record.id = none ∧ ∃ m',
      SlotBackend.Models out.2.backend m' ∧ ∀ id, m'.stores.record? id
        = if id = record.id then some record else m.stores.record? id) := by
  intro out
  obtain ⟨clock', now, done, _, hcommit, hfollows⟩ :=
    SlotBackend.commitStore h r record hlength (w.clock kind)
  have hanswer : out.1 = done.1 ∧ out.2.backend = done.2 := World.onClocked_eq hcommit
  rw [hanswer.1, hanswer.2]
  rcases hfollows with ⟨e, _, rfl⟩ | ⟨hdone, hmodels⟩
  · exact Or.inl ⟨e, rfl, h⟩
  · by_cases hid : record.id = r.id
    · cases hheld : (m.stores.get? r.id).any (·.isHeldBy r.lease.token now) with
      | false =>
        rw [ChunkedStore.commitAt_of_not_held hid hheld] at hdone hmodels
        exact Or.inl ⟨_, hdone, hmodels⟩
      | true =>
        rw [ChunkedStore.commitAt_of_held hid hheld] at hdone hmodels
        refine Or.inr ⟨hdone, ?_, _, hmodels, fun id => ?_⟩
        · rw [hid]
          refine SlotMap.record?_eq_none fun old hget => ?_
          rw [hget] at hheld
          cases hheld
        · rw [hid]
          exact SlotMap.record?_insert m.stores r.id id _
    · rw [ChunkedStore.commitAt_of_ne hid] at hdone hmodels
      exact Or.inl ⟨_, hdone, hmodels⟩

end

/-! ## The invariant -/

namespace Crowd

variable {σ ι : Type} [Codec] [Backend σ] [SlotBackend σ] {checksum : Bytes → UInt32}
  {data : ι → Bytes}

/-- How an ingest has to end: without a lock, and with an answer that it can stand by. -/
def Ended (data : ι → Bytes) (i : ι) (answer : Except VaultError Ingested) (inside : Bool)
    (x : Shelf ι) : Prop :=
  inside = false ∧ ∀ done, answer = .ok done → x.Delivers (data i) i done

/-- The lock of a member's content. -/
abbrev lockOf (checksum : Bytes → UInt32) (data : ι → Bytes) (i : ι) : Nat :=
  stripe (checksum (data i))

/-- The backend holds the blobs of a sound shelf, the members are careful, and those inside hold
locks of their own. -/
structure Upheld (checksum : Bytes → UInt32) (data : ι → Bytes)
    (c : Crowd σ ι (Except VaultError Ingested)) (x : Shelf ι) (inside : ι → Bool) : Prop where
  shelved : ∃ m, SlotBackend.Models c.backend m ∧ m.stores.record? = x.record?
  sound : x.Sound checksum
  careful : ∀ i, Careful checksum i (lockOf checksum data i) (Ended data i) (inside i) x
    (c.members i)
  locked : ∀ i, inside i = true → lockOf checksum data i ∈ c.locked
  exclusive : ∀ i j, inside i = true → inside j = true →
    lockOf checksum data i = lockOf checksum data j → i = j

variable {c : Crowd σ ι (Except VaultError Ingested)} {x : Shelf ι} {inside : ι → Bool}
  [DecidableEq ι]

/-- One member goes on, if the others can rely on what it did. -/
theorem Upheld.answered (h : c.Upheld checksum data x inside) {i : ι} {β : Type}
    {next : β → Procedure (Except VaultError Ingested)} {out : β × World σ} {y : Shelf ι}
    (hlocked : out.2.locked = c.locked)
    (hshelved : ∃ m, SlotBackend.Models out.2.backend m ∧ m.stores.record? = y.record?)
    (hsound : y.Sound checksum)
    (hothers : ∀ j, j ≠ i → Shelf.Rely (lockOf checksum data j) (inside j) x y)
    (hnext : Careful checksum i (lockOf checksum data i) (Ended data i) (inside i) y
      (next out.1)) :
    (c.answered i next out).Upheld checksum data y inside := by
  refine ⟨hshelved, hsound, fun j => ?_, fun j hj => ?_, h.exclusive⟩
  · by_cases hji : j = i
    · subst hji
      rw [c.members_answered_self]
      exact hnext
    · rw [c.members_answered_of_ne i next out hji]
      exact (h.careful j).rely (hothers j hji)
  · rw [c.locked_answered, hlocked]
    exact h.locked j hj

/-- A member takes a lock that nobody holds. -/
theorem Upheld.entered (h : c.Upheld checksum data x inside) {i : ι}
    {next : Unit → Procedure (Except VaultError Ingested)} {around : World Unit}
    (hfree : lockOf checksum data i ∉ c.locked)
    (hnext : Careful checksum i (lockOf checksum data i) (Ended data i) true x (next ())) :
    (c.answered i next (World.answer (.enter (lockOf checksum data i)) (c.world around))).Upheld
      checksum data x (Function.update inside i true) := by
  refine ⟨h.shelved, h.sound, fun j => ?_, fun j hj => ?_, fun j k hj hk hlock => ?_⟩
  · by_cases hji : j = i
    · subst hji
      rw [c.members_answered_self, Function.update_self]
      exact hnext
    · rw [c.members_answered_of_ne i next _ hji, Function.update_of_ne hji]
      exact h.careful j
  · change _ ∈ _ :: c.locked
    by_cases hji : j = i
    · rw [hji]
      exact List.mem_cons_self
    · rw [Function.update_of_ne hji] at hj
      exact List.mem_cons_of_mem _ (h.locked j hj)
  · -- Whoever is inside already holds a lock that is taken, so not this one.
    have hapart : ∀ k, k ≠ i → Function.update inside i true k = true →
        lockOf checksum data k ≠ lockOf checksum data i := by
      intro k hki hk heq
      rw [Function.update_of_ne hki] at hk
      exact hfree (heq ▸ h.locked k hk)
    by_cases hji : j = i
    · by_cases hki : k = i
      · rw [hji, hki]
      · exact absurd (hji ▸ hlock.symm) (hapart k hki hk)
    · by_cases hki : k = i
      · exact absurd (hki ▸ hlock) (hapart j hji hj)
      · rw [Function.update_of_ne hji] at hj
        rw [Function.update_of_ne hki] at hk
        exact h.exclusive j k hj hk hlock

/-- A member gives its lock back. -/
theorem Upheld.left (h : c.Upheld checksum data x inside) {i : ι} (hi : inside i = true)
    {next : Unit → Procedure (Except VaultError Ingested)} {around : World Unit}
    (hnext : Careful checksum i (lockOf checksum data i) (Ended data i) false x (next ())) :
    (c.answered i next (World.answer (.leave (lockOf checksum data i)) (c.world around))).Upheld
      checksum data x (Function.update inside i false) := by
  have hold : ∀ j, Function.update inside i false j = true → j ≠ i ∧ inside j = true := by
    intro j hj
    by_cases hji : j = i
    · rw [hji, Function.update_self] at hj
      cases hj
    · rw [Function.update_of_ne hji] at hj
      exact ⟨hji, hj⟩
  refine ⟨h.shelved, h.sound, fun j => ?_, fun j hj => ?_, fun j k hj hk => ?_⟩
  · by_cases hji : j = i
    · subst hji
      rw [c.members_answered_self, Function.update_self]
      exact hnext
    · rw [c.members_answered_of_ne i next _ hji, Function.update_of_ne hji]
      exact h.careful j
  · obtain ⟨hji, hj⟩ := hold j hj
    change _ ∈ c.locked.erase _
    have hne : lockOf checksum data j ≠ lockOf checksum data i := by
      intro heq
      exact hji (h.exclusive j i hj hi heq)
    exact (List.mem_erase_of_ne hne).mpr (h.locked j hj)
  · exact h.exclusive j k (hold j hj).2 (hold k hk).2

/-- Whoever goes on, and whatever the surroundings are, the invariant is kept. -/
theorem Upheld.step (h : c.Upheld checksum data x inside) (i : ι) (around : World Unit) :
    ∃ x' inside', (c.step i around).Upheld checksum data x' inside' := by
  rcases c.step_cases i around with hsame | ⟨β, request, next, hmember, hfree, hstep⟩
  · rw [hsame]
    exact ⟨x, inside, h⟩
  obtain ⟨m, hmodels, hrecords⟩ := h.shelved
  have hstart : SlotBackend.Models (c.world around).backend m := hmodels
  have hcareful := h.careful i
  rw [hmember] at hcareful
  rw [hstep]
  generalize hinside : inside i = b at hcareful
  cases hcareful with
  | quiet _ hquiet hnext =>
    obtain ⟨m', hmodels', hsame⟩ := World.sameRecords_answer hstart hquiet
    refine ⟨x, inside, h.answered (World.locked_answer_of_isQuiet hquiet _) ⟨m', hmodels', ?_⟩
      h.sound (fun j _ => .refl _ _ x) (hinside ▸ hnext _)⟩
    exact (funext hsame).trans hrecords
  | enter hnext =>
    refine ⟨x, _, h.entered ?_ (hnext x h.sound (.refl _ _ x))⟩
    intro hmem
    have hblocks : (c.world around).blocks (.enter (lockOf checksum data i)) = true :=
      List.contains_iff_mem.mpr hmem
    rw [hblocks] at hfree
    cases hfree
  | leave hnext => exact ⟨x, _, h.left hinside (hnext x h.sound (.refl _ _ x))⟩
  | @matchHash _ _ hash next hnext =>
    have hanswer : World.answer (.matchHash hash) (c.world around)
        = (.ok (m.matchHash hash), c.world around) := by
      change (c.world around).onBackend (Backend.matchHash hash) = _
      rw [World.onBackend, SlotBackend.matchHash hstart]
    rw [hanswer]
    refine ⟨x, inside, h.answered rfl ⟨m, hmodels, hrecords⟩ h.sound (fun j _ => .refl _ _ x) ?_⟩
    rw [hinside]
    refine hnext x h.sound (.refl _ _ x) _ fun record => ?_
    rw [m.mem_matchHash_iff, hrecords]
  | @commit _ kind r record next hlength hlock hfailed hsound hstored =>
    have hlocked : (World.answer (.commitStore kind r record) (c.world around)).2.locked
        = c.locked := World.locked_answer rfl _
    rcases World.commitStore_cases hstart kind r hlength
      with ⟨e, hanswer, hmodels'⟩ | ⟨hanswer, hnone, m', hmodels', hrecord?⟩
    · refine ⟨x, inside, h.answered hlocked ⟨m, hmodels', hrecords⟩ h.sound
        (fun j _ => .refl _ _ x) ?_⟩
      rw [hinside, hanswer]
      exact hfailed x h.sound (.refl _ _ x) e
    · rw [hrecords] at hnone
      refine ⟨x.add record i, inside, h.answered hlocked ⟨m', hmodels', ?_⟩
        (hsound x h.sound (.refl _ _ x) hnone) (fun j hji => ?_) ?_⟩
      · funext id
        rw [hrecord?, Shelf.record?_add, hrecords]
      · apply Shelf.rely_add hnone
        intro hj heq
        exact hji (h.exclusive j i hj hinside (heq.symm.trans hlock))
      · rw [hinside, hanswer]
        exact hstored x h.sound (.refl _ _ x) hnone

theorem Upheld.run (h : c.Upheld checksum data x inside) (steps : List (ι × World Unit)) :
    ∃ x' inside', (c.run steps).Upheld checksum data x' inside' := by
  induction steps generalizing c x inside with
  | nil => exact ⟨x, inside, h⟩
  | cons next steps ih =>
    obtain ⟨x', inside', h'⟩ := h.step next.1 next.2
    exact ih h'

/-! ## What the ingests come to -/

/-- What is promised of ingests side by side, at any time: no content is committed twice, and those
that are finished and succeeded agree on the identifier of equal content, say at most once that it
was new, and have it read back. -/
structure SharesContent (data : ι → Bytes) (c : Crowd σ ι (Except VaultError Ingested)) :
    Prop where
  apart : ∀ id id' record record' bytes,
    (Backend.getStore id c.backend).1 = .ok (some record) →
    (Backend.getStore id' c.backend).1 = .ok (some record') →
    record.decompressed = .ok bytes → record'.decompressed = .ok bytes → id = id'
  id_eq : ∀ i j done done', c.answer? i = some (.ok done) → c.answer? j = some (.ok done') →
    data i = data j → done.record.id = done'.record.id
  fresh_once : ∀ i j done done', c.answer? i = some (.ok done) → c.answer? j = some (.ok done') →
    data i = data j → done.deduped = false → done'.deduped = false → i = j
  read_back : ∀ i done, c.answer? i = some (.ok done) →
    ∀ deadline (around : World Unit), deadline.isExpired around.timer = false →
      ∃ found, (outcome (around.withBackend c.backend)
        (ContentStore.get done.record.id deadline)).1 = .ok found ∧ found.bytes = data i

omit [DecidableEq ι] in
theorem Upheld.delivers (h : c.Upheld checksum data x inside) {i : ι} {done : Ingested}
    (hdone : c.answer? i = some (.ok done)) : x.Delivers (data i) i done := by
  rw [c.answer?_eq_some_iff] at hdone
  have hcareful := h.careful i
  rw [hdone] at hcareful
  generalize inside i = b at hcareful
  cases hcareful with
  | done hended => exact (hended x h.sound (.refl _ _ x)).2 done rfl

omit [DecidableEq ι] in
theorem Upheld.sharesContent (h : c.Upheld checksum data x inside) : c.SharesContent data := by
  obtain ⟨m, hmodels, hrecords⟩ := h.shelved
  have hget : ∀ id record, (Backend.getStore id c.backend).1 = .ok (some record) →
      x.record? id = some record := by
    intro id record hrecord
    rw [SlotBackend.getStore hmodels, hrecords] at hrecord
    exact Except.ok.inj hrecord
  have hsame : ∀ i j done done', c.answer? i = some (.ok done) → c.answer? j = some (.ok done') →
      data i = data j → done.record.id = done'.record.id := by
    intro i j done done' hdone hdone' hdata
    obtain ⟨record, hrecord, hbytes⟩ := (h.delivers hdone).stored
    obtain ⟨record', hrecord', hbytes'⟩ := (h.delivers hdone').stored
    exact h.sound.apart _ _ record record' _ hrecord hrecord' hbytes (hdata ▸ hbytes')
  constructor
  case apart =>
    intro id id' record record' bytes hrecord hrecord' hbytes hbytes'
    exact h.sound.apart id id' record record' bytes (hget id record hrecord)
      (hget id' record' hrecord') hbytes hbytes'
  case id_eq => exact hsame
  case fresh_once =>
    intro i j done done' hdone hdone' hdata hfresh hfresh'
    have hauthor := (h.delivers hdone).own hfresh
    have hauthor' := (h.delivers hdone').own hfresh'
    rw [hsame i j done done' hdone hdone' hdata, hauthor'] at hauthor
    exact (Option.some.inj hauthor).symm
  case read_back =>
    intro i done hdone deadline around htime
    obtain ⟨record, hrecord, hbytes⟩ := (h.delivers hdone).stored
    have hstart : SlotBackend.Models (around.withBackend c.backend).backend m := hmodels
    have hnow : deadline.isExpired (around.withBackend c.backend).timer = false := htime
    rw [← hrecords] at hrecord
    refine ⟨⟨record.id, data i, record.contentType, record.fileSize, record.status⟩, ?_, rfl⟩
    rw [outcome, ContentStore.run_get hstart, hrecord, hnow]
    exact Session.retrieve_eq hbytes

omit [DecidableEq ι] in
/-- Over an archive, ingests that are about to begin uphold the invariant. -/
theorem upheld_start {s : ContentStore} {b : σ} {m : MemoryStore}
    {ingested : List (Bytes × Ingested)} (hmodels : SlotBackend.Models b m)
    (harchive : Archive s.checksum m ingested)
    (hfaithful : ∀ i, Faithful s.compressionLevel (data i)) (contentType : ι → String)
    (deadline : ι → Deadline) :
    (start b fun i => s.ingest (data i) (contentType i) (deadline i)).Upheld s.checksum data
      ⟨m.stores.record?, fun _ => none⟩ fun _ => false := by
  refine ⟨⟨m, hmodels, rfl⟩, ⟨fun id record hrecord => ?_, harchive.apart⟩, fun i => ?_,
    fun i hi => ?_, fun i j hi => ?_⟩
  · obtain ⟨hid, bytes, _, _, _, hbytes, hhash⟩ := harchive.known id record hrecord
    exact ⟨hid, bytes, hbytes, hhash⟩
  · exact Careful.ingest (contentType i) (hfaithful i) rfl (deadline i)
  · cases hi
  · cases hi

end Crowd

/-- With any codec, over either backend and after any calls one after the other, ingests side by
side store each content once, however their steps fall and whatever the clocks show. -/
theorem ingests_share_content [Codec] (s : ContentStore) (turns : List Turn)
    (hturns : ∀ turn ∈ turns, turn.call.IsFaithful) {ι : Type} [DecidableEq ι] (data : ι → Bytes)
    (contentType : ι → String) (deadline : ι → Deadline)
    (hfaithful : ∀ i, Faithful s.compressionLevel (data i)) (steps : List (ι × World Unit)) :
    ((Crowd.start (Session.run s.checksum ⟨MemoryStore.empty, []⟩ turns).backend fun i =>
      s.ingest (data i) (contentType i) (deadline i)).run steps).SharesContent data ∧
    ∀ config b, ChunkedStore.create config = .ok b →
      ((Crowd.start (Session.run s.checksum ⟨b, []⟩ turns).backend fun i =>
        s.ingest (data i) (contentType i) (deadline i)).run steps).SharesContent data := by
  refine ⟨?_, fun config b hcreate => ?_⟩
  · have hempty : (⟨.empty, []⟩ : Session MemoryStore).IsArchived s.checksum :=
      ⟨.empty, rfl, .empty⟩
    obtain ⟨m, hmodels, harchive⟩ := Session.isArchived_run hempty turns hturns
    obtain ⟨x, inside, h⟩ :=
      (Crowd.upheld_start hmodels harchive hfaithful contentType deadline).run steps
    exact h.sharesContent
  · obtain ⟨rfl, husable⟩ := ChunkedStore.usable_of_create hcreate
    have hempty : (⟨.empty config, []⟩ : Session ChunkedStore).IsArchived s.checksum :=
      ⟨.empty, ⟨husable, _, ChunkedStore.represents_empty config⟩, .empty⟩
    obtain ⟨m, hmodels, harchive⟩ := Session.isArchived_run hempty turns hturns
    obtain ⟨x, inside, h⟩ :=
      (Crowd.upheld_start hmodels harchive hfaithful contentType deadline).run steps
    exact h.sharesContent

/-- Three ingests under one checksum, two of them of the same content.  While the first one is
inside, the second one waits; then it finds what the first one committed.  Over a chunked store, the
first one goes through as well. -/
theorem ingests_share_content_of_rivals :
    let _ : Codec := Compression.codec
    let s : ContentStore := ⟨⟨.standard, .manual⟩, 3, fun _ => 7⟩
    let data (i : Fin 3) : Bytes := if i = 2 then [4, 4, 4] else [1, 2, 3]
    let around : World Unit := {
      backend := (), manual := .still 0, system := .still 0, timer := 0, tokens := ⟨fun _ => 1, 0⟩,
      stamps := ⟨fun _ => 9, 0⟩, stampBytes := ⟨fun _ => 0, 0⟩, jitters := ⟨fun _ => 0, 0⟩,
      today := default }
    let turns (i : Fin 3) (count : Nat) : List (Fin 3 × World Unit) := .replicate count (i, around)
    let steps := turns 0 5 ++ turns 1 5 ++ turns 0 8 ++ turns 1 3 ++ turns 2 20
    let config : ChunkedConfig := ⟨8, 128, 2⟩
    let crowd : Crowd MemoryStore (Fin 3) (Except VaultError Ingested) :=
      (Crowd.start .empty fun i => s.ingest (data i) "text/plain" .never).run steps
    let chunked : Crowd ChunkedStore (Fin 3) (Except VaultError Ingested) :=
      (Crowd.start (.empty config) fun i => s.ingest (data i) "text/plain" .never).run (turns 0 13)
    let told (answer : Option (Except VaultError Ingested)) : Option (StoreId × Bool) :=
      answer.bind fun result => result.toOption.map fun done => (done.record.id, done.deduped)
    crowd.SharesContent data ∧
      (List.ofFn fun i => told (crowd.answer? i))
        = [some (⟨7, 9⟩, false), some (⟨7, 9⟩, true), some (⟨7, 10⟩, false)] ∧
      ChunkedStore.create config = .ok (.empty config) ∧ chunked.SharesContent data ∧
      told (chunked.answer? 0) = some (⟨7, 9⟩, false) := by
  intro _ s data around turns steps config crowd chunked told
  have hfaithful : ∀ i, Faithful s.compressionLevel (data i) := by
    have hfirst : Faithful 3 [1, 2, 3] := ⟨by decide +kernel, by decide, by decide +kernel⟩
    have hsecond : Faithful 3 [4, 4, 4] := ⟨by decide +kernel, by decide, by decide +kernel⟩
    intro i
    by_cases hi : i = 2
    · simp only [data, hi, if_true]
      exact hsecond
    · simp only [data, hi, if_false]
      exact hfirst
  have hcreate : ChunkedStore.create config = .ok (.empty config) := rfl
  have hnone : ∀ turn ∈ ([] : List Turn), turn.call.IsFaithful := fun _ h => by cases h
  have hmemory := (ingests_share_content s [] hnone data (fun _ => "text/plain")
    (fun _ => .never) hfaithful steps).1
  have hchunked := (ingests_share_content s [] hnone data (fun _ => "text/plain")
    (fun _ => .never) hfaithful (turns 0 13)).2 config _ hcreate
  exact ⟨hmemory, by decide +kernel, hcreate, hchunked, by decide +kernel⟩

end ContentVault
