import ContentVault.Proofs.Store.Contents
import ContentVault.Proofs.Vault.Failing
import ContentVault.Proofs.Vault.Leasing
set_option autoImplicit false

/-!
# What an ingest comes to

Alone on a backend, amid clocks and timers that do as they like, an ingest finds its content stored,
or commits it under an identifier that was free or whose lease had lapsed, or it fails; and then
such a lease is all that may be gone.
-/

namespace ContentVault

/-! ## Slots that are claimed and given up -/

namespace SlotMap

variable {κ ρ : Type} [Ord κ]

/-- What may be claimed: a slot that is free, or whose lease has lapsed. -/
def Vacant (lapsed : Lease → Prop) (slot : Option (Slot ρ)) : Prop :=
  slot = none ∨ ∃ lease, slot = some (.reserved lease) ∧ lapsed lease

/-- The slots are what they were, but that a lease may be gone that had lapsed. -/
inductive Freed (P : κ → Prop) (lapsed : Lease → Prop) (m : SlotMap κ ρ) : SlotMap κ ρ → Prop where
  | same : Freed P lapsed m m
  | lapsed {id : κ} {lease : Lease} (hid : P id) (hslot : m.get? id = some (.reserved lease))
    (hlapsed : lapsed lease) : Freed P lapsed m (m.erase id)

variable {m : SlotMap κ ρ} {id : κ} {lease : Lease} {now : UInt64} {lapsed : Lease → Prop}
  {P : κ → Prop}

theorem vacant_of_claim [Std.TransOrd κ] (h : (m.claim id lease now).1 = true)
    (hlapsed : ∀ old : Lease, old.isLive now = false → lapsed old) : Vacant lapsed (m.get? id) := by
  have hall : (m.get? id).all (·.isClaimable now) = true := by
    by_contra hnot
    rw [claim, if_neg hnot] at h
    cases h
  rcases hget : m.get? id with _ | ⟨old⟩ | ⟨record⟩
  · exact Or.inl rfl
  · rw [hget] at hall
    exact Or.inr ⟨old, rfl, hlapsed old (Bool.not_eq_true' _ ▸ hall)⟩
  · rw [hget] at hall
    cases hall

/-- What is vacant is not committed. -/
theorem Vacant.record?_eq_none (h : Vacant lapsed (m.get? id)) : m.record? id = none := by
  rcases h with hnone | ⟨old, hslot, _⟩
  · rw [record?, hnone]
    rfl
  · rw [record?, hslot]
    rfl

variable [Std.TransOrd κ] [Std.LawfulEqOrd κ] [DecidableEq κ]

/-- A slot that was claimed and is given up is free. -/
theorem Vacant.freed (h : Vacant lapsed (m.get? id)) (hid : P id) :
    Freed P lapsed m (m.erase id) := by
  rcases h with hnone | ⟨old, hslot, hlapsed⟩
  · rw [OrderedMap.erase_of_none hnone]
    exact .same
  · exact .lapsed hid hslot hlapsed

theorem release_insert (m : SlotMap κ ρ) (r : Reservation κ) :
    release (m.insert r.id (.reserved r.lease)) r = (true, m.erase r.id) := by
  have hleased : ((m.insert r.id (.reserved r.lease)).get? r.id).any
      (·.isLeasedTo r.lease.token) = true := by
    rw [OrderedMap.get?_insert_self]
    exact beq_self_eq_true r.lease.token
  rw [release, if_pos hleased, m.erase_insert]

/-- Under a claim, a record is committed, or nothing is changed. -/
theorem commit_insert [Identifier κ] (m : SlotMap κ ρ) (r : Reservation κ) (record : ρ)
    (now : UInt64) :
    let claimed : SlotMap κ ρ := m.insert r.id (.reserved r.lease)
    claimed.commit r record now = (.ok (), m.insert r.id (.committed record)) ∨
      claimed.commit r record now = (.error r.notReserved, claimed) := by
  intro claimed
  have hinsert : claimed.insert r.id (.committed record) = m.insert r.id (.committed record) := by
    refine OrderedMap.ext_get? fun id => ?_
    simp only [claimed, OrderedMap.get?_insert]
    split <;> rfl
  cases hheld : (claimed.get? r.id).any (·.isHeldBy r.lease.token now) with
  | false => exact Or.inr (commit_of_not_held hheld record)
  | true => exact Or.inl ((commit_of_held hheld record).trans (by rw [hinsert]))

omit [Std.TransOrd κ] in
theorem Freed.record?_eq {n : SlotMap κ ρ} (h : Freed P lapsed m n) (id : κ) :
    n.record? id = m.record? id := by
  cases h with
  | same => rfl
  | lapsed hid hslot hlapsed =>
    exact record?_erase_eq (Vacant.record?_eq_none (Or.inr ⟨_, hslot, hlapsed⟩)) id

end SlotMap

/-! ## Backends in which leases can be given up -/

/-- A backend that shows its slots, and in which giving up a lease never fails. -/
class ReleasingBackend (σ : Type) [Backend σ] extends FileBackend σ, ShowsSlots σ where
  isOk_releaseStore (b : σ) (r : Reservation StoreId) : (Backend.releaseStore r b).1.isOk = true
  isOk_releaseFile (b : σ) (r : Reservation FileId) : (Backend.releaseFile r b).1.isOk = true

/-- Of the two ways to the slot maps, the one by the files is taken. -/
instance (priority := high) {σ : Type} [Backend σ] [h : ReleasingBackend σ] : SlotBackend σ :=
  h.toFileBackend.toSlotBackend

instance : ReleasingBackend MemoryStore where
  isOk_releaseStore _ _ := rfl
  isOk_releaseFile _ _ := rfl

instance : ReleasingBackend ChunkedStore where
  isOk_releaseStore s r := by
    change ((ChunkedStore.release r).unclocked s).1.isOk = true
    unfold ChunkedStore.release ChunkedStore.Client.unclocked
    simp only [ChunkedStore.Client.alone_bind, ChunkedStore.alone_deleteStore]
    rcases s.stores.deleteIf_cases r.id (·.isLeasedTo r.lease.token)
      with ⟨_, hdel⟩ | ⟨_, _, _, hdel⟩
    · simp only [hdel]
      rfl
    · simp only [hdel]
      rfl
  isOk_releaseFile s r := rfl

/-- What is not refused follows the slot maps. -/
theorem Follows.of_isOk {σ α : Type} {models : σ → MemoryStore → Prop} {before : σ}
    {out : Except StoreError α × σ} {expected : Except StoreError α × MemoryStore}
    (h : Follows models before out expected) (hok : out.1.isOk = true) :
    out.1 = expected.1 ∧ models out.2 expected.2 := by
  rcases h with ⟨e, _, rfl⟩ | h
  · cases hok
  · exact h

/-- Identifiers whose slots are one of the slot maps, and whose leases can be given up. -/
class SlotField (κ : Type) (ρ : outParam Type) [Ord κ] [Std.TransOrd κ] [Reservable κ ρ]
    [SlotKind κ ρ] where
  map : MemoryStore → SlotMap κ ρ
  withMap : MemoryStore → SlotMap κ ρ → MemoryStore
  release {σ : Type} [Backend σ] : Reservation κ → Atomic σ (Except StoreError Bool)
  claim_eq (m : MemoryStore) (id : κ) (lease : Lease) (now : UInt64) :
    SlotClaim.claim id lease now m
      = (.ok ((map m).claim id lease now).1, withMap m ((map m).claim id lease now).2)
  release_eq (m : MemoryStore) (slots : SlotMap κ ρ) (r : Reservation κ) :
    release r (withMap m slots) = (.ok (slots.release r).1, withMap m (slots.release r).2)
  follows_release {σ : Type} [Backend σ] [ReleasingBackend σ] {b : σ} {m : MemoryStore}
    (h : SlotBackend.Models b m) (r : Reservation κ) :
    Follows SlotBackend.Models b (release r b) (release r m)
  isOk_release {σ : Type} [Backend σ] [ReleasingBackend σ] (b : σ) (r : Reservation κ) :
    (release r b).1.isOk = true

instance : SlotField StoreId ContentRecord where
  map m := m.stores
  withMap m stores := { m with stores }
  release := Backend.releaseStore
  claim_eq _ _ _ _ := rfl
  release_eq _ _ _ := rfl
  follows_release h r := SlotBackend.releaseStore h r
  isOk_release := ReleasingBackend.isOk_releaseStore

instance : SlotField FileId FileRecord where
  map m := m.files
  withMap m files := { m with files }
  release := Backend.releaseFile
  claim_eq _ _ _ _ := rfl
  release_eq _ _ _ := rfl
  follows_release h r := FileBackend.releaseFile h r
  isOk_release := ReleasingBackend.isOk_releaseFile

section

variable {κ ρ σ : Type} [Ord κ] [Std.TransOrd κ] [Reservable κ ρ] [SlotKind κ ρ] [SlotField κ ρ]
  [Backend σ] [ReleasingBackend σ] {kind : World Unit → Prop} {b b' : σ} {m : MemoryStore}
  {r : Reservation κ}

open SlotField (map withMap)

/-- An identifier that is granted was vacant, and is under the lease now. -/
theorem Granted.reserved {s : Reserver} (h : Granted kind s b r b')
    (hmodels : SlotBackend.Models b m) :
    SlotBackend.Models b' (withMap m ((map m).insert r.id (.reserved r.lease))) ∧
      SlotMap.Vacant (LapsesAmid kind s.clock) ((map (ρ := ρ) m).get? r.id) := by
  obtain ⟨around, hkind, _, hclaim⟩ := h
  let now := (around.clock s.clock).read.1
  have hfollows := SlotClaim.follows (ρ := ρ) hmodels r.id r.lease now
  rw [SlotField.claim_eq] at hfollows
  obtain ⟨hanswer, hafter⟩ := hfollows.of_isOk (congrArg (·.1.isOk) hclaim)
  have hclaimed : ((map m).claim r.id r.lease now).1 = true :=
    (Except.ok.inj ((congrArg Prod.fst hclaim).symm.trans hanswer)).symm
  refine ⟨?_, SlotMap.vacant_of_claim hclaimed fun old hold => ⟨around, hkind, hold⟩⟩
  have hb' : (SlotClaim.claim r.id r.lease now b).2 = b' := congrArg Prod.snd hclaim
  dsimp only at hafter
  rw [hb', (SlotMap.claim_eq_true hclaimed).2] at hafter
  exact hafter

/-- A claim that is given up leaves its slot free. -/
theorem models_release [Std.LawfulEqOrd κ] [DecidableEq κ]
    (h : SlotBackend.Models b (withMap m ((map m).insert r.id (.reserved r.lease)))) :
    SlotBackend.Models (SlotField.release r b).2 (withMap m ((map m).erase r.id)) := by
  obtain ⟨_, hafter⟩ := (SlotField.follows_release h r).of_isOk (SlotField.isOk_release b r)
  rw [SlotField.release_eq, SlotMap.release_insert] at hafter
  exact hafter

end

section

variable {σ : Type} [Backend σ] [ReleasingBackend σ] {kind : World Unit → Prop} {b b' : σ}
  {m : MemoryStore}

/-- The backend stands for slot maps of which `P` holds. -/
def StandsFor (P : MemoryStore → Prop) (b : σ) : Prop := ∃ m, SlotBackend.Models b m ∧ P m

/-! ## Blobs -/

/-- Under a claim, a blob is committed, or nothing is changed. -/
theorem commitAt_of_reserved (now : UInt64) (r : Reservation StoreId) (record : ContentRecord)
    (m : MemoryStore) (hid : record.id = r.id) :
    let claimed : MemoryStore := { m with stores := m.stores.insert r.id (.reserved r.lease) }
    ChunkedStore.commitAt now r record claimed
        = (.ok (), { m with stores := m.stores.insert r.id (.committed record) }) ∨
      ChunkedStore.commitAt now r record claimed = (.error r.notReserved, claimed) := by
  intro claimed
  rw [ChunkedStore.commitAt_eq, if_pos hid]
  rcases m.stores.commit_insert r record now with h | h
  · exact Or.inl (by rw [h])
  · exact Or.inr (by rw [h])

variable [Codec]

/-- What an ingest of content comes to over slot maps. -/
inductive Ingests (lapsed : Lease → Prop) (hash : UInt32) (data compressed : Bytes)
    (contentType : String) (m : MemoryStore) : Except VaultError Ingested → MemoryStore → Prop where
  | failed (e : VaultError) {stores : SlotMap StoreId ContentRecord}
    (h : m.stores.Freed (·.hash = hash) lapsed stores) :
    Ingests lapsed hash data compressed contentType m (.error e) { m with stores }
  | found {record : ContentRecord}
    (hfirst : (m.matchHash hash).find? (ContentStore.holds data compressed) = some record) :
    Ingests lapsed hash data compressed contentType m (.ok ⟨record, true⟩) m
  | stored {record : ContentRecord} (hhash : record.id.hash = hash)
    (hfresh : record = .fresh record.id compressed contentType (UInt64.ofNat data.length))
    (hnone : (m.matchHash hash).find? (ContentStore.holds data compressed) = none)
    (hvacant : SlotMap.Vacant lapsed (m.stores.get? record.id)) :
    Ingests lapsed hash data compressed contentType m (.ok ⟨record, false⟩)
      { m with stores := m.stores.insert record.id (.committed record) }

namespace ContentStore

variable {r : Reservation StoreId} {hash : UInt32} {data compressed : Bytes} {contentType : String}
  {lapsed : Lease → Prop}

/-- A claim that is given up fails the ingest. -/
theorem ingests_abandon (hmodels : SlotBackend.Models b'
      { m with stores := m.stores.insert r.id (.reserved r.lease) })
    (hvacant : SlotMap.Vacant lapsed (m.stores.get? r.id)) (hhash : r.id.hash = hash)
    (e : VaultError) :
    Ensures kind (fun answer => StandsFor
        (Ingests lapsed hash data compressed contentType m answer))
      (abandonWith r (.error e)) b' := by
  have hreleased : SlotBackend.Models (Backend.releaseStore r b').2
      { m with stores := m.stores.erase r.id } := models_release (m := m) (r := r) hmodels
  exact fun _ _ => ⟨_, hreleased, .failed e (hvacant.freed hhash)⟩

theorem ingests_commitFresh (s : ContentStore)
    (hmodels : SlotBackend.Models b'
      { m with stores := m.stores.insert r.id (.reserved r.lease) })
    (hvacant : SlotMap.Vacant lapsed (m.stores.get? r.id)) (hhash : r.id.hash = hash)
    (hnone : (m.matchHash hash).find? (holds data compressed) = none)
    (hlength : compressed.length < UInt64.size) :
    Ensures kind (fun answer => StandsFor
        (Ingests lapsed hash data compressed contentType m answer))
      (s.commitFresh r data compressed contentType) b' := by
  unfold commitFresh
  refine Ensures.bind fun around _ => ?_
  let record : ContentRecord := .fresh r.id compressed contentType (UInt64.ofNat data.length)
  obtain ⟨hanswer, hbackend⟩ := World.answer_commitStore (around.withBackend b') s.reserver.clock r
    record
  obtain ⟨clock', now, done, _, hcommit, hfollows⟩ :=
    SlotBackend.commitStore hmodels r record hlength (around.withBackend b' |>.clock _)
  change Ensures kind _ _
    (World.answer (.commitStore s.reserver.clock r record) (around.withBackend b')).2.backend
  rw [World.backend_withBackend] at hanswer hbackend
  rw [hcommit] at hanswer hbackend
  generalize World.answer (.commitStore s.reserver.clock r record) (around.withBackend b') = out
    at hanswer hbackend ⊢
  obtain ⟨answer, w⟩ := out
  change answer = done.1 at hanswer
  change w.backend = done.2 at hbackend
  rcases hfollows with ⟨e, _, hdone⟩ | ⟨hdone, hafter⟩
  · rw [hdone] at hanswer hbackend
    subst hanswer
    exact ingests_abandon (hbackend ▸ hmodels) hvacant hhash _
  · rw [← hanswer] at hdone
    rw [← hbackend] at hafter
    rcases commitAt_of_reserved now r record m rfl with hcommitted | hturned
    · rw [hcommitted] at hdone hafter
      subst hdone
      exact ⟨_, hafter, .stored hhash rfl hnone hvacant⟩
    · rw [hturned] at hdone hafter
      subst hdone
      exact ingests_abandon hafter hvacant hhash _

theorem ingests_ingestReserved (s : ContentStore)
    (hmodels : SlotBackend.Models b'
      { m with stores := m.stores.insert r.id (.reserved r.lease) })
    (hvacant : SlotMap.Vacant lapsed (m.stores.get? r.id)) (hhash : r.id.hash = hash)
    (hnone : (m.matchHash hash).find? (holds data compressed) = none)
    (hlength : compressed.length < UInt64.size) (deadline : Deadline) :
    Ensures kind (fun answer => StandsFor
        (Ingests lapsed hash data compressed contentType m answer))
      (s.ingestReserved r hash data compressed contentType deadline) b' := by
  -- A claim commits nothing, so the second look finds as little as the first.
  have hsame : MemoryStore.SameRecords m
      { m with stores := m.stores.insert r.id (.reserved r.lease) } := fun id =>
    SlotMap.record?_insert_eq hvacant.record?_eq_none rfl id
  unfold ingestReserved
  refine Ensures.bind ((ensures_findDuplicate hmodels hash data compressed).weaken ?_)
  rintro found after ⟨hafter, hfound⟩
  rw [hafter, hfound, hsame.find?_matchHash_eq_none hnone]
  refine Ensures.bind (((isLocal_passed deadline).ensures kind b').weaken ?_)
  intro passed after hafter
  rw [show after = b' from hafter]
  cases passed with
  | true => exact ingests_abandon hmodels hvacant hhash _
  | false => exact s.ingests_commitFresh hmodels hvacant hhash hnone hlength

theorem ingests_ingestExclusive [ClaimsSlots StoreId ContentRecord σ] (s : ContentStore)
    (hmodels : SlotBackend.Models b m) (candidate : StoreId)
    (hlength : compressed.length < UInt64.size) (deadline : Deadline) :
    Ensures kind (fun answer => StandsFor (Ingests (LapsesAmid kind s.reserver.clock)
        candidate.hash data compressed contentType m answer))
      (s.ingestExclusive candidate data compressed contentType deadline) b := by
  unfold ingestExclusive
  refine Ensures.bind ((ensures_findDuplicate hmodels candidate.hash data compressed).weaken ?_)
  rintro found after ⟨hafter, hfound⟩
  rw [hafter, hfound]
  cases hfirst : (m.matchHash candidate.hash).find? (holds data compressed) with
  | some record => exact ⟨m, hmodels, .found hfirst⟩
  | none =>
    have hnext : ∀ (id : StoreId) byte, id.hash = candidate.hash →
        (SlotKind.mutate id byte).hash = candidate.hash := fun _ _ hid => hid
    refine Ensures.bind ((s.reserver.ensures_reserve hnext rfl deadline b).weaken ?_)
    rintro (e | r) b' hreserved
    · rw [show b' = b from hreserved]
      exact ⟨m, hmodels, .failed _ .same⟩
    · obtain ⟨hhash, hgranted⟩ := hreserved
      obtain ⟨hclaimed, hvacant⟩ := hgranted.reserved hmodels
      exact s.ingests_ingestReserved hclaimed hvacant hhash hfirst hlength deadline

/-- Whatever happens around it, an ingest comes to one of its ends. -/
theorem ingests_ingest [ClaimsSlots StoreId ContentRecord σ] (s : ContentStore)
    (hmodels : SlotBackend.Models b m) (data : Bytes) (contentType : String) (deadline : Deadline)
    (hlength : (Codec.compress data s.compressionLevel).length < UInt64.size) :
    Ensures kind (fun answer => StandsFor (Ingests (LapsesAmid kind s.reserver.clock)
        (s.checksum data) data (Codec.compress data s.compressionLevel) contentType m answer))
      (s.ingest data contentType deadline) b := by
  have hlate : StandsFor (Ingests (LapsesAmid kind s.reserver.clock) (s.checksum data) data
      (Codec.compress data s.compressionLevel) contentType m (.error (.store .timeout))) b :=
    ⟨m, hmodels, .failed _ .same⟩
  unfold ingest
  refine ensures_unlessPassed (fun _ => Ensures.bind (Ensures.ask_local trivial fun around _ => ?_))
    fun _ => hlate
  refine ensures_unlessPassed (fun _ => Ensures.bind (Ensures.ask_local trivial fun _ _ => ?_))
    fun _ => hlate
  refine Ensures.bind ((s.ingests_ingestExclusive hmodels
    ⟨s.checksum data, (World.answer .seedStamp (around.withBackend b)).1⟩ hlength
    deadline).weaken fun answer after hends => ?_)
  exact Ensures.bind (Ensures.ask_local trivial fun _ _ => hends)

end ContentStore

end

end ContentVault
