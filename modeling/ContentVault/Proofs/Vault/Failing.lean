import ContentVault.Content.Compression
import ContentVault.Proofs.History.Chronicle
import ContentVault.Proofs.Store.Vacating
import ContentVault.Proofs.Vault.Phases
set_option autoImplicit false

/-!
# Ingests that fail

An ingest may come too late at each of its looks at the timer, find no free identifier, or fail to
commit because its lease lapsed or the record is too large.  Whichever it is, it gives up the claim
that it made, and the backend is what it was; only a lease that had lapsed before may be gone.
-/

namespace ContentVault

variable {σ : Type} [Backend σ] [TidyBackend σ]

/-- Nothing of an ingest is left: the backend is what it was, or what it was without a lease on an
identifier of the checksum that had lapsed; and no token is carried that was not carried before. -/
structure LeavesNothing (lapsed : Lease → Prop) (hash : UInt32) (before after : σ) : Prop where
  backend : after = before ∨ ∃ id lease, id.hash = hash ∧
    TidyBackend.slotOf before id = .ok (some (.reserved lease)) ∧ lapsed lease ∧
    after = TidyBackend.vacate id before
  tokens : ∀ token, TidyBackend.Carries after token → TidyBackend.Carries before token

/-- Amid surroundings of the kind, there is a moment at which the lease has lapsed. -/
def LapsesAmid (kind : World Unit → Prop) (clock : ClockKind) (lease : Lease) : Prop :=
  ∃ around, kind around ∧ lease.isLive (around.clock clock).read.1 = false

theorem LeavesNothing.refl (lapsed : Lease → Prop) (hash : UInt32) (b : σ) :
    LeavesNothing lapsed hash b b := ⟨Or.inl rfl, fun _ h => h⟩

/-- One claim was made since: of an identifier of the checksum that was free or whose lease had
lapsed. -/
structure Claimed (lapsed : Lease → Prop) (hash : UInt32) (before : σ) (r : Reservation StoreId)
    (after : σ) : Prop where
  hash_eq : r.id.hash = hash
  claim : ∃ now, Backend.claimStore r.id r.lease now before = (.ok true, after)
  lapsed : ∀ lease, TidyBackend.slotOf before r.id = .ok (some (.reserved lease)) → lapsed lease

variable {lapsed : Lease → Prop} {hash : UInt32} {b b' : σ} {m : MemoryStore}
  {r : Reservation StoreId}

/-- What is claimed was not committed, and is under the lease now. -/
theorem Claimed.models (h : Claimed lapsed hash b r b') (hmodels : SlotBackend.Models b m) :
    m.stores.record? r.id = none ∧
      SlotBackend.Models b' { m with stores := m.stores.insert r.id (.reserved r.lease) } := by
  obtain ⟨now, hclaim⟩ := h.claim
  have hfollows := SlotBackend.claimStore hmodels r.id r.lease now
  rw [hclaim] at hfollows
  rcases hfollows with ⟨e, _, hout⟩ | ⟨hanswer, hmodels'⟩
  · cases hout
  · obtain ⟨hnone, hslots⟩ := SlotMap.claim_eq_true (Except.ok.inj hanswer).symm
    refine ⟨hnone, ?_⟩
    change SlotBackend.Models b' { m with stores := (m.stores.claim r.id r.lease now).2 }
      at hmodels'
    rw [hslots] at hmodels'
    exact hmodels'

/-- Giving the claim up leaves nothing. -/
theorem Claimed.release (h : Claimed lapsed hash b r b') (hmodels : SlotBackend.Models b m) :
    LeavesNothing lapsed hash b (Backend.releaseStore r b').2 := by
  obtain ⟨now, hclaim⟩ := h.claim
  have hvacated : (Backend.releaseStore r b').2 = TidyBackend.vacate r.id b := by
    have hclaimed : (Backend.claimStore r.id r.lease now b).1 = .ok true := congrArg Prod.fst hclaim
    have hrelease := TidyBackend.release_claim hmodels hclaimed
    rw [hclaim] at hrelease
    exact hrelease
  rw [hvacated]
  refine ⟨?_, fun token => TidyBackend.carries_vacate⟩
  have hslot := TidyBackend.slotOf_eq hmodels r.id
  rcases hget : m.stores.get? r.id with _ | ⟨lease⟩ | ⟨record⟩
  · exact Or.inl (TidyBackend.vacate_of_free hmodels hget)
  · rw [hget] at hslot
    exact Or.inr ⟨r.id, lease, h.hash_eq, hslot, h.lapsed lease hslot, rfl⟩
  · have hnone := (h.models hmodels).1
    rw [SlotMap.record?, hget] at hnone
    cases hnone

/-- A claim takes a slot that is free or whose lease has lapsed, or changes nothing. -/
theorem claimed_or_eq (hmodels : SlotBackend.Models b m) (id : StoreId) (lease : Lease)
    {now : UInt64} (hlapsed : ∀ old : Lease, old.isLive now = false → lapsed old) :
    (Backend.claimStore id lease now b).1 = .ok true ∧
        Claimed lapsed id.hash b ⟨id, lease⟩ (Backend.claimStore id lease now b).2 ∨
      (Backend.claimStore id lease now b).1 ≠ .ok true ∧
        (Backend.claimStore id lease now b).2 = b := by
  rcases SlotBackend.claimStore hmodels id lease now with ⟨e, _, hout⟩ | ⟨hanswer, _⟩
  · rw [hout]
    exact Or.inr ⟨fun hok => (by cases hok), rfl⟩
  · rcases hclaim : (m.stores.claim id lease now).1 with _ | _
    · rw [show (Backend.claimStore id lease now m).1 = .ok false from congrArg _ hclaim] at hanswer
      refine Or.inr ⟨fun hok => ?_, SlotBackend.unclaimedStore hanswer⟩
      cases hanswer.symm.trans hok
    · rw [show (Backend.claimStore id lease now m).1 = .ok true from congrArg _ hclaim] at hanswer
      refine Or.inl ⟨hanswer, rfl, ⟨now, Prod.ext hanswer rfl⟩, fun old hold => hlapsed old ?_⟩
      rw [TidyBackend.slotOf_eq hmodels] at hold
      have hclaimable : (m.stores.get? id).all (·.isClaimable now) = true := by
        by_contra hnot
        rw [SlotMap.claim, if_neg hnot] at hclaim
        cases hclaim
      rw [Except.ok.inj hold] at hclaimable
      exact Bool.not_eq_true' _ ▸ hclaimable

/-! ## Reserving -/

section

variable {kind : World Unit → Prop}

/-- What comes of a reservation: a claim, or nothing. -/
def Reserved (lapsed : Lease → Prop) (hash : UInt32) (before : σ) :
    Option (Reservation StoreId) → σ → Prop
  | some r, after => Claimed lapsed hash before r after
  | none, after => after = before

namespace Reserver

variable (s : Reserver)

/-- An attempt claims the identifier, or leaves the backend as it is. -/
theorem ensures_attempt (hmodels : SlotBackend.Models b m) (id : StoreId) :
    Ensures kind
      (fun answer => Reserved (LapsesAmid kind s.clock) id.hash b answer.toOption.join)
      (s.attempt id) b := by
  rw [attempt_eq]
  refine Ensures.bind ((s.ensures_draw b).weaken ?_)
  rintro ⟨now, lease⟩ b' ⟨hb, around, hkind, hnow, _⟩
  rw [hb]
  refine Ensures.bind fun _ _ => ?_
  change Reserved (LapsesAmid kind s.clock) id.hash b
    (attempted id lease (Backend.claimStore id lease now b).1).toOption.join
    (Backend.claimStore id lease now b).2
  have hlapsed : ∀ old : Lease, old.isLive now = false → LapsesAmid kind s.clock old :=
    fun old hold => ⟨around, hkind, hnow ▸ hold⟩
  rcases claimed_or_eq hmodels id lease hlapsed with ⟨hanswer, hclaimed⟩ | ⟨hanswer, hsame⟩
  · rw [hanswer]
    exact hclaimed
  · rcases hclaim : (Backend.claimStore id lease now b).1 with e | _ | _
    · exact hsame
    · exact hsame
    · exact absurd hclaim hanswer

/-- A reservation claims one identifier of the checksum, or leaves the backend as it is. -/
theorem ensures_attempts (hmodels : SlotBackend.Models b m) (candidate : StoreId)
    (deadline : Deadline) (remaining count : Nat) (id : StoreId) :
    Ensures kind (fun answer => Reserved (LapsesAmid kind s.clock) id.hash b answer.toOption)
      (s.attempts candidate deadline remaining count id) b := by
  induction remaining generalizing count id with
  | zero => rfl
  | succ remaining ih =>
    unfold attempts
    refine Ensures.bind (((isLocal_passed deadline).ensures kind b).weaken ?_)
    rintro passed _ rfl
    cases passed with
    | true => rfl
    | false =>
      refine Ensures.bind ((s.ensures_attempt hmodels id).weaken ?_)
      rintro (e | _ | r) b' hreserved
      · exact hreserved
      · rw [show b' = _ from hreserved]
        change Ensures kind _ (s.policy.backoff count >>= fun _ =>
          s.attempts candidate deadline remaining (count + 1) id.next) _
        refine Ensures.bind (((isLocal_backoff s.policy count).ensures kind _).weaken ?_)
        rintro _ _ rfl
        exact ih (count + 1) id.next
      · exact hreserved

end Reserver

/-! ## Ingesting -/

namespace ContentStore

variable {data compressed : Bytes} {contentType : String}

/-- Nothing is left of an ingest that does not store its content. -/
def EndsCleanly (lapsed : Lease → Prop) (hash : UInt32) (before : σ)
    (answer : Except VaultError Ingested) (after : σ) : Prop :=
  (∀ done, answer = .ok done → done.deduped = true) → LeavesNothing lapsed hash before after

theorem ensures_abandonWith (h : Claimed lapsed hash b r b') (hmodels : SlotBackend.Models b m)
    (answer : Except VaultError Ingested) :
    Ensures kind (EndsCleanly lapsed hash b) (abandonWith r answer) b' :=
  fun _ _ _ => h.release hmodels

/-- A commit that fails leaves the claim, which is then given up. -/
theorem ensures_commitFresh (s : ContentStore) (h : Claimed lapsed hash b r b')
    (hmodels : SlotBackend.Models b m) (hlength : compressed.length < UInt64.size) :
    Ensures kind (EndsCleanly lapsed hash b) (s.commitFresh r data compressed contentType) b' := by
  obtain ⟨_, hmodels'⟩ := h.models hmodels
  unfold commitFresh
  refine Ensures.bind fun around _ => ?_
  let record : ContentRecord := .fresh r.id compressed contentType (UInt64.ofNat data.length)
  have hfailed : (World.answer (.commitStore s.reserver.clock r record)
        (around.withBackend b')).1.isOk = false →
      (World.answer (.commitStore s.reserver.clock r record)
        (around.withBackend b')).2.backend = b' := by
    obtain ⟨hanswer, hafter⟩ := World.answer_commitStore (around.withBackend b') s.reserver.clock r
      record
    rw [hanswer, hafter]
    exact TidyBackend.uncommitted hmodels' hlength
  change Ensures kind (EndsCleanly lapsed hash b) _
    (World.answer (.commitStore s.reserver.clock r record) (around.withBackend b')).2.backend
  generalize World.answer (.commitStore s.reserver.clock r record) (around.withBackend b') = out
    at hfailed ⊢
  obtain ⟨e | _, w⟩ := out
  · rw [show w.backend = b' from hfailed rfl]
    exact ensures_abandonWith h hmodels _
  · exact fun hdeduped => absurd (hdeduped _ rfl) Bool.false_ne_true

/-- Under a claim, the content is committed, or the claim is given up. -/
theorem ensures_ingestReserved [Codec] (s : ContentStore) (h : Claimed lapsed hash b r b')
    (hmodels : SlotBackend.Models b m) (hlength : compressed.length < UInt64.size)
    (deadline : Deadline) :
    Ensures kind (EndsCleanly lapsed hash b)
      (s.ingestReserved r hash data compressed contentType deadline) b' := by
  unfold ingestReserved
  refine Ensures.bind ((ensures_findDuplicate (h.models hmodels).2 hash data compressed).weaken ?_)
  rintro (e | existing | existing) after ⟨hafter, _⟩
  · rw [hafter]
    exact ensures_abandonWith h hmodels _
  · rw [hafter]
    refine Ensures.bind (((isLocal_passed deadline).ensures kind b').weaken ?_)
    intro passed after hafter
    rw [show after = b' from hafter]
    cases passed with
    | true => exact ensures_abandonWith h hmodels _
    | false => exact s.ensures_commitFresh h hmodels hlength
  · rw [hafter]
    exact ensures_abandonWith h hmodels _

theorem ensures_ingestExclusive [Codec] (s : ContentStore) (hmodels : SlotBackend.Models b m)
    (candidate : StoreId) (hlength : compressed.length < UInt64.size) (deadline : Deadline) :
    Ensures kind (EndsCleanly (LapsesAmid kind s.reserver.clock) candidate.hash b)
      (s.ingestExclusive candidate data compressed contentType deadline) b := by
  unfold ingestExclusive
  refine Ensures.bind ((ensures_findDuplicate hmodels candidate.hash data compressed).weaken ?_)
  rintro (e | existing | existing) after ⟨hafter, _⟩
  · rw [hafter]
    exact fun _ => .refl _ _ b
  · rw [hafter]
    refine Ensures.bind ((s.reserver.ensures_attempts hmodels candidate deadline _ 0
      candidate).weaken ?_)
    rintro (e | r) b' hreserved
    · rw [show b' = b from hreserved]
      exact fun _ => .refl _ _ b
    · exact s.ensures_ingestReserved hreserved hmodels hlength deadline
  · rw [hafter]
    exact fun _ => .refl _ _ b

/-- Whatever happens around it, an ingest that does not store its content leaves nothing. -/
theorem ensures_ingest [Codec] (s : ContentStore) (hmodels : SlotBackend.Models b m) (data : Bytes)
    (contentType : String) (deadline : Deadline)
    (hlength : (Codec.compress data s.compressionLevel).length < UInt64.size) :
    Ensures kind (EndsCleanly (LapsesAmid kind s.reserver.clock) (s.checksum data) b)
      (s.ingest data contentType deadline) b := by
  have hnothing : EndsCleanly (LapsesAmid kind s.reserver.clock) (s.checksum data) b
      (.error (.store .timeout)) b := fun _ => .refl _ _ b
  unfold ingest
  refine ensures_unlessPassed (fun _ => Ensures.bind (Ensures.ask_local trivial fun around _ => ?_))
    fun _ => hnothing
  refine ensures_unlessPassed (fun _ => Ensures.bind (Ensures.ask_local trivial fun _ _ => ?_))
    fun _ => hnothing
  refine Ensures.bind ((s.ensures_ingestExclusive hmodels
    ⟨s.checksum data, (World.answer .seedStamp (around.withBackend b)).1⟩ hlength
    deadline).weaken fun answer after hends => ?_)
  exact Ensures.bind (Ensures.ask_local trivial fun _ _ => hends)

end ContentStore

end

/-! ## After any deeds -/

open Chronicle (start)

/-- After any deeds and amid whatever changes, an ingest that fails or finds its content stored
leaves the backend as it was; but a lease on an identifier of the content's checksum may be gone
that had lapsed at some moment of the ingest. -/
theorem failed_ingest_leaves_nothing [Codec] (deeds : List ((α : Type) × Deed α)) (s : ContentStore)
    (data : Bytes) (contentType : String) (deadline : Deadline) (around : Nat → World Unit)
    (hlength : (Codec.compress data s.compressionLevel).length < UInt64.size) :
    let lapsed := LapsesAmid (∃ n, · = around n) s.reserver.clock
    (let b := ((start MemoryStore.empty).run deeds).backend
      let out := amid around (s.ingest data contentType deadline) b
      (∀ done, out.1 = .ok done → done.deduped = true) →
        LeavesNothing lapsed (s.checksum data) b out.2) ∧
    ∀ config created, ChunkedStore.create config = .ok created →
      let b := ((start created).run deeds).backend
      let out := amid around (s.ingest data contentType deadline) b
      (∀ done, out.1 = .ok done → done.deduped = true) →
        LeavesNothing lapsed (s.checksum data) b out.2 := by
  intro lapsed
  have hrun : ∀ {σ : Type} [Backend σ] [TidyBackend σ] (b : σ) m, SlotBackend.Models b m →
      ContentStore.EndsCleanly lapsed (s.checksum data) b
        (amid around (s.ingest data contentType deadline) b).1
        (amid around (s.ingest data contentType deadline) b).2 := fun b m hmodels =>
    (s.ensures_ingest hmodels data contentType deadline hlength).amid fun n => ⟨n, rfl⟩
  refine ⟨?_, fun config created hcreate => ?_⟩
  · obtain ⟨m, hm⟩ := Chronicle.tells_inMemory deeds
    exact hrun _ m hm.models
  · obtain ⟨⟨m, hm⟩, _⟩ := Chronicle.tells_inChunks hcreate deeds
    exact hrun _ m hm.models

/-- The lease of an earlier holder has lapsed and the identifier is claimed; the new lease lapses
while the chunks are written, so the ingest fails, and the identifier is free. -/
theorem failed_ingest_leaves_nothing_of_lapse :
    let _ : Codec := Compression.codec
    let s : ContentStore := ⟨⟨.standard, .manual⟩, 3, fun _ => 7⟩
    let around : World Unit := {
      backend := (), manual := ⟨200, [100000000]⟩, system := .still 0, timer := 0,
      tokens := ⟨fun _ => 1, 0⟩, stamps := ⟨fun _ => 9, 0⟩, stampBytes := ⟨fun _ => 0, 0⟩,
      jitters := ⟨fun _ => 0, 0⟩, today := default }
    let config : ChunkedConfig := ⟨8, 128, 2⟩
    let deeds : List ((α : Type) × Deed α) := [⟨_, .standing (.claimStore ⟨7, 9⟩ ⟨5, 100⟩ 0)⟩]
    let b := ((start (ChunkedStore.empty config)).run deeds).backend
    let out := amid (fun _ => around) (s.ingest [1, 2, 3] "text/plain" .never) b
    ChunkedStore.create config = .ok (.empty config) ∧
      b.storeSlot ⟨7, 9⟩ = .ok (some (.reserved ⟨5, 100⟩)) ∧
      out.1 = .error (.store (.idNotReserved (StoreId.token ⟨7, 9⟩))) ∧
      out.2.storeSlot ⟨7, 9⟩ = .ok none ∧
      LeavesNothing (LapsesAmid (∃ _ : Nat, · = around) .manual) 7 b out.2 := by
  intro _ s around config deeds b out
  have hcreate : ChunkedStore.create config = .ok (.empty config) := rfl
  have hanswer : out.1 = .error (.store (.idNotReserved (StoreId.token ⟨7, 9⟩))) := by
    decide +kernel
  have hingest := failed_ingest_leaves_nothing deeds s [1, 2, 3] "text/plain" .never
    (fun _ => around) (by decide +kernel)
  refine ⟨hcreate, by decide +kernel, hanswer, by decide +kernel,
    hingest.2 config _ hcreate fun done hdone => ?_⟩
  cases hanswer.symm.trans hdone

end ContentVault
