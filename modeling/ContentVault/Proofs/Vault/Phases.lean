import ContentVault.Proofs.Vault.Amid
import ContentVault.Proofs.Vault.Ingesting
set_option autoImplicit false

/-!
# Phases of an ingest amid surroundings

What the looks at the timer and the clock, and the search for stored content, come to when the
surroundings are of some kind at every request.
-/

namespace ContentVault

variable {σ : Type} [Backend σ] {kind : World Unit → Prop}

/-- The timer is looked at at a moment of its own. -/
theorem Deadline.ensures_passed (deadline : Deadline) (b : σ) :
    Ensures kind (fun passed b' => b' = b ∧
        ∃ around, kind around ∧ passed = deadline.isExpired around.timer)
      deadline.passed b :=
  Ensures.bind (Ensures.ask_local trivial fun around hkind => ⟨rfl, around, hkind, rfl⟩)

/-- A lease is drawn at a moment of its own. -/
theorem Reserver.ensures_draw (s : Reserver) (b : σ) :
    Ensures kind (fun drawn b' => b' = b ∧
        ∃ around, kind around ∧ drawn.1 = (around.clock s.clock).read.1 ∧
          drawn.2.expiresAt = Lease.expiry drawn.1 s.policy.ttl.millisWord)
      s.draw b := by
  unfold draw
  refine Ensures.bind (Ensures.ask_local trivial fun around hkind => ?_)
  refine Ensures.bind (Ensures.ask_local trivial fun _ _ => ?_)
  refine ⟨rfl, around, hkind, ?_, rfl⟩
  cases s.clock <;> rfl

namespace ContentStore

/-- What does not come too late ends as it ends, and what does does nothing. -/
theorem ensures_unlessPassed {α : Type} {post : Except VaultError α → σ → Prop}
    {p : Procedure (Except VaultError α)} {deadline : Deadline} {b : σ}
    (h : (∃ around, kind around ∧ deadline.isExpired around.timer = false) → Ensures kind post p b)
    (hlate : (∃ around, kind around ∧ deadline.isExpired around.timer = true) →
      post (.error (.store .timeout)) b) :
    Ensures kind post (unlessPassed deadline p) b := by
  unfold unlessPassed
  refine Ensures.bind ((deadline.ensures_passed b).weaken ?_)
  rintro passed after ⟨hafter, around, hkind, hpassed⟩
  rw [hafter]
  cases passed with
  | true => exact hlate ⟨around, hkind, hpassed.symm⟩
  | false => exact h ⟨around, hkind, hpassed.symm⟩

/-- Stored content is looked for among the records of its checksum. -/
theorem ensures_findDuplicate_of_read [Codec] {b : σ} {hash : UInt32} {records : List ContentRecord}
    (hread : Backend.matchHash hash b = (.ok records, b)) (data compressed : Bytes) :
    Ensures kind
      (fun found b' => b' = b ∧ found = .ok (records.find? (holds data compressed)))
      (findDuplicate hash data compressed) b := by
  unfold findDuplicate
  refine Ensures.bind fun around _ => ?_
  have hanswer : World.answer (.matchHash hash) (around.withBackend b)
      = (.ok records, around.withBackend b) := by
    change (around.withBackend b).onBackend (Backend.matchHash hash) = _
    rw [World.onBackend, World.backend_withBackend, hread]
    rfl
  rw [hanswer]
  exact ⟨rfl, rfl⟩

theorem ensures_findDuplicate [Codec] [SlotBackend σ] {b : σ} {m : MemoryStore}
    (h : SlotBackend.Models b m) (hash : UInt32) (data compressed : Bytes) :
    Ensures kind
      (fun found b' => b' = b ∧ found = .ok ((m.matchHash hash).find? (holds data compressed)))
      (findDuplicate hash data compressed) b :=
  ensures_findDuplicate_of_read (SlotBackend.matchHash h hash) data compressed

/-- What is committed is read. -/
theorem ensures_record [SlotBackend σ] {b : σ} {m : MemoryStore} (h : SlotBackend.Models b m)
    (id : StoreId) :
    Ensures kind
      (fun answer b' => b' = b ∧
        answer = ofStore (Identifier.require id (.ok (m.stores.record? id))))
      (record id) b := by
  unfold record
  refine Ensures.bind fun around _ => ?_
  change (Backend.getStore id b).2 = b ∧
    ofStore (Identifier.require id (Backend.getStore id b).1) = _
  rw [SlotBackend.getStore h]
  exact ⟨rfl, rfl⟩

/-! ## Runs of an ingest -/

variable {around : Nat → World Unit} {deadline : Deadline}

theorem runAmid_unlessPassed {α : Type} {n : Nat}
    (htime : deadline.isExpired (around n).timer = false) (p : Procedure (Except VaultError α))
    (w : World σ) :
    (unlessPassed deadline p).runAmid World.answer (fun n w => (around n).withBackend w.backend) n w
      = p.runAmid World.answer (fun n w => (around n).withBackend w.backend) (n + 1)
          ((around n).withBackend w.backend) := by
  unfold unlessPassed
  change (if deadline.isExpired (around n).timer then _ else p : Procedure _).runAmid _ _ _ _ = _
  rw [htime]
  rfl

/-- An ingest whose deadline has not passed when it takes its lock ends as its exclusive part
does. -/
theorem amid_ingest [Codec] (s : ContentStore) {b : σ} {data : Bytes} {contentType : String}
    (htime : ∀ n < 3, deadline.isExpired (around n).timer = false)
    {post : Except VaultError Ingested → σ → Prop}
    (h : ∀ stamp, Ensures (fun _ => True) post (s.ingestExclusive ⟨s.checksum data, stamp⟩ data
      (Codec.compress data s.compressionLevel) contentType deadline) b) :
    post (amid around (s.ingest data contentType deadline) b).1
      (amid around (s.ingest data contentType deadline) b).2 := by
  unfold amid ingest
  rw [runAmid_unlessPassed (htime 0 (by decide)), runAmid_ask,
    runAmid_unlessPassed (htime 2 (by decide)), runAmid_ask]
  refine Ensures.runAmid (Ensures.bind ((h _).weaken fun answer after hpost => ?_))
    (fun _ => trivial) 4 _ rfl
  exact Ensures.bind (Ensures.ask_local trivial fun _ _ => hpost)

end ContentStore

end ContentVault
