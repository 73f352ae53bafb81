import ContentVault.Proofs.Concurrent.Racing
import ContentVault.Proofs.Store.Room
import ContentVault.Proofs.Vault.SlotView
set_option autoImplicit false

/-!
# Which identifier is reserved

While the clock stands and the deadline is not reached, a reservation takes the first candidate
that is free or whose lease has lapsed, and sets its slot and no other; if every attempt meets a
slot that is taken, nothing changes.
-/

namespace ContentVault

/-! ## Time and chance during a procedure -/

theorem Deadline.isExpired_of_le {deadline : Deadline} {t t' : Instant} (hle : t ≤ t')
    (h : deadline.isExpired t' = false) : deadline.isExpired t = false := by
  obtain ⟨_ | instant⟩ := deadline
  · rfl
  · exact decide_eq_false fun hpassed => of_decide_eq_false h (hpassed.trans hle)

namespace World

variable {σ : Type} [Backend σ]

/-- The timer never goes back. -/
theorem timer_le_answer {α : Type} (request : Request α) (w : World σ) :
    w.timer ≤ (World.answer request w).2.timer := by
  cases request with
  | pause span => exact Nat.le_add_right _ _
  | readClock kind => cases kind <;> exact Nat.le_refl _
  | commitStore kind r record => cases kind <;> exact Nat.le_refl _
  | commitFile kind r record => cases kind <;> exact Nat.le_refl _
  | _ => exact Nat.le_refl _

theorem timer_le_run {α : Type} (p : Procedure α) (w : World σ) : w.timer ≤ (w.run p).2.timer := by
  induction p generalizing w with
  | done a => exact Nat.le_refl _
  | ask request next ih => exact (w.timer_le_answer request).trans (ih _ _)

/-- The stamp byte that is drawn after `i` others. -/
def byte (w : World σ) (i : Nat) : UInt8 := w.stampBytes.item (w.stampBytes.drawn + i)

/-- The lease token that is drawn after `i` others. -/
def token (w : World σ) (i : Nat) : UInt64 := w.tokens.item (w.tokens.drawn + i)

/-- A pause lets time go by. -/
theorem run_backoff (policy : ReservationPolicy) (count : Nat) (w : World σ) :
    ∃ system timer jitters,
      w.run (policy.backoff count) = ((), { w with system, timer, jitters }) := by
  unfold ReservationPolicy.backoff
  split
  · exact ⟨w.system, w.timer, w.jitters, rfl⟩
  · split
    · exact ⟨_, _, w.jitters, rfl⟩
    · exact ⟨_, _, _, rfl⟩

end World

/-! ## Candidates -/

namespace SlotKind

variable {κ ρ : Type} [Reservable κ ρ] [SlotKind κ ρ]

/-- The candidate after `k` collisions; the bytes are those that are drawn. -/
def candidate (bytes : Nat → UInt8) (id : κ) : Nat → κ
  | 0 => id
  | k + 1 => candidate (fun i => bytes (i + 1)) (mutate id (bytes 0)) k

theorem candidate_eq_of_irrelevant (h : ∀ (id : κ) byte byte', mutate id byte = mutate id byte')
    (bytes bytes' : Nat → UInt8) (id : κ) (k : Nat) :
    candidate bytes id k = candidate bytes' id k := by
  induction k generalizing bytes bytes' id with
  | zero => rfl
  | succ k ih =>
    unfold candidate
    rw [h id (bytes 0) (bytes' 0)]
    exact ih _ _ _

/-- The candidates of a blob are those of its checksum, one stamp after the other. -/
theorem candidate_storeId (bytes : Nat → UInt8) (id : StoreId) (k : Nat) :
    candidate bytes id k = Reserver.nth id k := by
  induction k generalizing bytes id with
  | zero => rfl
  | succ k ih => exact ih _ _

end SlotKind

namespace Reserver

open SlotKind (candidate candidate_eq_of_irrelevant slot set)
open ClaimsSlots (refused?)

variable {κ ρ σ : Type} [Reservable κ ρ] [SlotKind κ ρ] [Backend σ] [ShowsSlots σ]
  [ClaimsSlots κ ρ σ]

/-- There is room for the identifier, but at `now` its slot is committed or under a live lease. -/
def Taken (b : σ) (now : UInt64) (id : κ) : Prop :=
  refused? b id = none ∧ Slots.isOpen now (slot (slotsOf b) id) = false
deriving Decidable

/-- There is room for the identifier, and at `now` its slot is free or under a lapsed lease. -/
def Claimable (b : σ) (now : UInt64) (id : κ) : Prop :=
  refused? b id = none ∧ Slots.isOpen now (slot (slotsOf b) id) = true
deriving Decidable

/-- How attempts at candidates end: with the first that can be claimed, under its lease, and then
its slot is the only one that is not what it was; with the first for which there is no room; or with
all of them taken. -/
structure ChoosesFirst (r : Reserver) (b : σ) (now : UInt64) (attempts : Nat)
    (exhausted : StoreError) (c : Nat → κ) (lease : Nat → Lease)
    (out : Except StoreError (Reservation κ) × σ) : Prop where
  found : ∀ k < attempts, (∀ j < k, Taken b now (c j)) → Claimable b now (c k) →
    out.1 = .ok ⟨c k, lease k⟩ ∧ slotsOf out.2 = set (slotsOf b) (c k) (.reserved (lease k)) ∧
      (slotsOf b).SameCommitted (slotsOf out.2)
  refused : ∀ k < attempts, (∀ j < k, Taken b now (c j)) → ∀ e, refused? b (c k) = some e →
    out = (.error e, b)
  exhausted : (∀ k < attempts, Taken b now (c k)) → out = (.error exhausted, b)
  expires : ∀ k, (lease k).expiresAt.toNat
    = min (now.toNat + r.policy.ttl.millisWord.toNat) (UInt64.size - 1)

section

variable {r : Reserver} {b : σ} {now : UInt64} {attempts : Nat} {exhausted : StoreError}
  {c : Nat → κ} {lease : Nat → Lease} {out : Except StoreError (Reservation κ) × σ}

variable (hexpires : ∀ k, (lease k).expiresAt.toNat
  = min (now.toNat + r.policy.ttl.millisWord.toNat) (UInt64.size - 1))
include hexpires

/-- If there is no room for the first candidate, that decides. -/
theorem ChoosesFirst.of_refused {e : StoreError} (he : refused? b (c 0) = some e) :
    r.ChoosesFirst b now (attempts + 1) exhausted c lease (.error e, b) := by
  have hnot : ¬Taken b now (c 0) := fun htaken => by cases htaken.1.symm.trans he
  refine ⟨fun k _ hall hclaimable => ?_, fun k _ hall e' he' => ?_, fun hall => ?_, hexpires⟩
  · cases k with
    | zero => cases hclaimable.1.symm.trans he
    | succ k => exact absurd (hall 0 (Nat.succ_pos k)) hnot
  · cases k with
    | zero => exact Prod.ext (congrArg Except.error (Option.some.inj (he.symm.trans he'))) rfl
    | succ k => exact absurd (hall 0 (Nat.succ_pos k)) hnot
  · exact absurd (hall 0 (Nat.succ_pos attempts)) hnot

/-- If the first candidate can be claimed, it is. -/
theorem ChoosesFirst.of_claimable (h : Claimable b now (c 0)) {b' : σ}
    (hslots : slotsOf b' = set (slotsOf b) (c 0) (.reserved (lease 0))) :
    r.ChoosesFirst b now (attempts + 1) exhausted c lease (.ok ⟨c 0, lease 0⟩, b') := by
  have hnot : ¬Taken b now (c 0) := fun htaken =>
    Bool.false_ne_true (htaken.2.symm.trans h.2)
  refine ⟨fun k _ hall hclaimable => ?_, fun k _ hall e he => ?_, fun hall => ?_, hexpires⟩
  · cases k with
    | zero => exact ⟨rfl, hslots, hslots ▸ SlotKind.sameCommitted_set h.2⟩
    | succ k => exact absurd (hall 0 (Nat.succ_pos k)) hnot
  · cases k with
    | zero => cases h.1.symm.trans he
    | succ k => exact absurd (hall 0 (Nat.succ_pos k)) hnot
  · exact absurd (hall 0 (Nat.succ_pos attempts)) hnot

/-- If the first candidate is taken, the others decide. -/
theorem ChoosesFirst.later (htaken : Taken b now (c 0))
    (h : r.ChoosesFirst b now attempts exhausted (fun k => c (k + 1)) (fun k => lease (k + 1))
      out) :
    r.ChoosesFirst b now (attempts + 1) exhausted c lease out := by
  have hothers : ∀ {k}, (∀ j < k + 1, Taken b now (c j)) → ∀ j < k, Taken b now (c (j + 1)) :=
    fun hall j hj => hall (j + 1) (Nat.succ_lt_succ hj)
  refine ⟨fun k hk hall hclaimable => ?_, fun k hk hall e he => ?_, fun hall => ?_, hexpires⟩
  · cases k with
    | zero => exact absurd (htaken.2.symm.trans hclaimable.2) Bool.false_ne_true
    | succ k => exact h.found k (Nat.lt_of_succ_lt_succ hk) (hothers hall) hclaimable
  · cases k with
    | zero => cases htaken.1.symm.trans he
    | succ k => exact h.refused k (Nat.lt_of_succ_lt_succ hk) (hothers hall) e he
  · exact h.exhausted (hothers hall)

end

/-- The lease that is drawn at `now` after `k` others. -/
def leaseAt (r : Reserver) (w : World σ) (now : UInt64) (k : Nat) : Lease :=
  ⟨w.token k, Lease.expiry now r.policy.ttl.millisWord⟩

omit [ShowsSlots σ] in
/-- While the clock stands, what is drawn is the lease at its reading. -/
theorem run_draw_of_still {r : Reserver} (hclock : r.clock = .manual) {w : World σ} {now : UInt64}
    (hnow : w.manual = .still now) :
    w.run r.draw = ((now, r.leaseAt w now 0), { w with tokens := w.tokens.draw.2 }) := by
  obtain ⟨policy, clock⟩ := r
  obtain ⟨backend, manual, system, timer, tokens, stamps, stampBytes, jitters, today, locked⟩ := w
  cases hclock
  cases hnow
  rfl

omit [ShowsSlots σ] [ClaimsSlots κ ρ σ] in
/-- One attempt in time: it is refused, it succeeds, or the next candidate is tried. -/
theorem run_attempts_of_still {r : Reserver} (hclock : r.clock = .manual) {w : World σ}
    {now : UInt64} (hnow : w.manual = .still now) (candidate₀ : κ) {deadline : Deadline}
    (hearly : deadline.isExpired w.timer = false) (remaining count : Nat) (id : κ) :
    let lease := r.leaseAt w now 0
    let out := SlotClaim.claim id lease now w.backend
    let v : World σ := { w with tokens := w.tokens.draw.2, backend := out.2 }
    w.run (r.attempts candidate₀ deadline (remaining + 1) count id) =
      match out.1 with
      | .error e => (.error e, v)
      | .ok true => (.ok ⟨id, lease⟩, v)
      | .ok false => v.run (Reservable.next id >>= fun id =>
          r.policy.backoff count >>= fun _ =>
            r.attempts candidate₀ deadline remaining (count + 1) id) := by
  intro lease out v
  have hpassed : w.run deadline.passed = (false, w) := congrArg (·, w) hearly
  have hattempt : w.run (r.attempt id) = (attempted id lease out.1, v) := by
    rw [run_attempt, run_draw_of_still hclock hnow]
    rfl
  rw [attempts, World.run_bind, hpassed]
  simp only [Bool.false_eq_true, if_false]
  rw [World.run_bind, hattempt]
  rcases out.1 with e | _ | _ <;> rfl

theorem choosesFirst_attempts (r : Reserver) (hclock : r.clock = .manual) (candidate₀ : κ)
    (deadline : Deadline) (now : UInt64) (remaining count : Nat) (id : κ) (w : World σ)
    (hnow : w.manual = .still now)
    (hdeadline : deadline.isExpired
      (w.run (r.attempts candidate₀ deadline remaining count id)).2.timer = false) :
    r.ChoosesFirst w.backend now remaining (r.exhausted candidate₀) (candidate w.byte id)
      (r.leaseAt w now) (outcome w (r.attempts candidate₀ deadline remaining count id)) := by
  have hexpires : ∀ (v : World σ) k, (r.leaseAt v now k).expiresAt.toNat
      = min (now.toNat + r.policy.ttl.millisWord.toNat) (UInt64.size - 1) := fun v k =>
    Lease.toNat_expiry now r.policy.ttl.millisWord
  induction remaining generalizing count id w with
  | zero =>
    exact ⟨fun k hk => absurd hk (Nat.not_lt_zero k), fun k hk => absurd hk (Nat.not_lt_zero k),
      fun _ => rfl, hexpires w⟩
  | succ remaining ih =>
    have hearly := Deadline.isExpired_of_le (w.timer_le_run _) hdeadline
    have hrun := run_attempts_of_still hclock hnow candidate₀ hearly remaining count id
    unfold outcome
    rcases ClaimsSlots.claim_cases w.backend id (r.leaseAt w now 0) now
      with ⟨e, he, hclaim⟩ | ⟨hroom, hopen, hclaim⟩ | ⟨hroom, hopen, hclaimed, hslots⟩
    · simp only [hclaim] at hrun
      rw [hrun]
      exact .of_refused (hexpires w) he
    · simp only [hclaim, World.run_bind] at hrun
      -- Nothing was claimed, so the next attempt starts where this one did, a token and perhaps a
      -- byte poorer.
      obtain ⟨stampBytes, hnext, hbytes⟩ :=
        SlotKind.run_next ({ w with tokens := w.tokens.draw.2 } : World σ) id
      obtain ⟨system, timer, jitters, hbackoff⟩ := World.run_backoff r.policy count
        ({ w with tokens := w.tokens.draw.2, stampBytes } : World σ)
      rw [hnext, hbackoff] at hrun
      rw [hrun] at hdeadline ⊢
      let v : World σ := { w with tokens := w.tokens.draw.2, stampBytes, system, timer, jitters }
      have hrest := ih (count + 1) (SlotKind.mutate id (w.byte 0)) v hnow hdeadline
      have hcandidates : candidate v.byte (SlotKind.mutate id (w.byte 0))
          = fun k => candidate w.byte id (k + 1) := by
        funext k
        rcases hbytes with rfl | hirrelevant
        · have hshift : v.byte = fun i => w.byte (i + 1) := by
            funext i
            exact congrArg w.stampBytes.item (Nat.add_right_comm w.stampBytes.drawn 1 i)
          rw [hshift]
          rfl
        · exact candidate_eq_of_irrelevant hirrelevant _ _ _ k
      have hleases : r.leaseAt v now = fun k => r.leaseAt w now (k + 1) := by
        funext k
        refine congrArg (Lease.mk · _) ?_
        exact congrArg w.tokens.item (Nat.add_right_comm w.tokens.drawn 1 k)
      rw [hcandidates, hleases] at hrest
      exact .later (hexpires w) ⟨hroom, hopen⟩ hrest
    · simp only [hclaimed] at hrun
      rw [hrun]
      exact .of_claimable (hexpires w) ⟨hroom, hopen⟩ hslots

/-! ## What decides -/

/-- A candidate is refused, or claimable, or taken. -/
theorem refused_or_claimable_of_not_taken {b : σ} {now : UInt64} {id : κ} (h : ¬Taken b now id) :
    (∃ e, refused? b id = some e) ∨ Claimable b now id := by
  cases hroom : refused? b id with
  | some e => exact Or.inl ⟨e, rfl⟩
  | none => exact Or.inr ⟨hroom, Bool.not_eq_false _ ▸ fun hopen => h ⟨hroom, hopen⟩⟩

/-- Over backends in which the same candidates are refused and the same are open, attempts are
answered alike. -/
theorem ChoosesFirst.answer_eq {r : Reserver} {b b' : σ} {now : UInt64} {attempts : Nat}
    {exhausted : StoreError} {c : Nat → κ} {lease : Nat → Lease}
    {out out' : Except StoreError (Reservation κ) × σ}
    (h : r.ChoosesFirst b now attempts exhausted c lease out)
    (h' : r.ChoosesFirst b' now attempts exhausted c lease out')
    (hsame : ∀ k < attempts, refused? b' (c k) = refused? b (c k) ∧
      Slots.isOpen now (slot (slotsOf b') (c k)) = Slots.isOpen now (slot (slotsOf b) (c k))) :
    out'.1 = out.1 := by
  have htaken : ∀ k < attempts, (Taken b' now (c k) ↔ Taken b now (c k)) := by
    intro k hk
    rw [Taken, Taken, (hsame k hk).1, (hsame k hk).2]
  by_cases hall : ∀ k < attempts, Taken b now (c k)
  · rw [h.exhausted hall, h'.exhausted fun k hk => (htaken k hk).mpr (hall k hk)]
  · push Not at hall
    classical
    let k := Nat.find hall
    obtain ⟨hk, hnot⟩ : k < attempts ∧ ¬Taken b now (c k) := Nat.find_spec hall
    have hbefore : ∀ j < k, Taken b now (c j) := fun j hj =>
      Classical.not_not.mp fun hj' => Nat.find_min hall hj ⟨hj.trans hk, hj'⟩
    have hbefore' : ∀ j < k, Taken b' now (c j) := fun j hj =>
      (htaken j (hj.trans hk)).mpr (hbefore j hj)
    rcases refused_or_claimable_of_not_taken hnot with ⟨e, he⟩ | hclaimable
    · rw [h.refused k hk hbefore e he,
        h'.refused k hk hbefore' e ((hsame k hk).1.trans he)]
    · have hclaimable' : Claimable b' now (c k) :=
        ⟨(hsame k hk).1.trans hclaimable.1, (hsame k hk).2.trans hclaimable.2⟩
      rw [(h.found k hk hbefore hclaimable).1, (h'.found k hk hbefore' hclaimable').1]

/-- After all stamps, the candidates of a blob come again. -/
theorem nth_mod (candidate₀ : StoreId) (k : Nat) :
    nth candidate₀ (k % 65536) = nth candidate₀ k := by
  have hhash : (nth candidate₀ (k % 65536)).hash = (nth candidate₀ k).hash := by
    rw [hash_nth, hash_nth]
  have hstamp : (nth candidate₀ (k % 65536)).stamp = (nth candidate₀ k).stamp := by
    rw [← UInt16.toNat_inj, toNat_stamp_nth, toNat_stamp_nth]
    omega
  rw [StoreId.mk.injEq]
  exact ⟨hhash, hstamp⟩

end Reserver

/-! ## In any state -/

namespace Reserver

open SlotKind (candidate)
open ClaimsSlots (refused?)

/-- The clock stands at `now`, and the deadline is not reached before the reservation ends. -/
structure InTime {κ ρ σ : Type} [Reservable κ ρ] [Backend σ] (r : Reserver) (w : World σ)
    (now : UInt64) (candidate₀ : κ) (deadline : Deadline) : Prop where
  clock : r.clock = .manual
  still : w.manual = .still now
  early : deadline.isExpired (w.run (r.reserve candidate₀ deadline)).2.timer = false

/-- Reservations in time take the first of their candidates that can be claimed. -/
def TakesFirst (κ ρ σ : Type) [Reservable κ ρ] [SlotKind κ ρ] [Backend σ] [ShowsSlots σ]
    [ClaimsSlots κ ρ σ] : Prop :=
  ∀ (r : Reserver) (w : World σ) now (candidate₀ : κ) deadline,
    r.InTime w now candidate₀ deadline →
      r.ChoosesFirst w.backend now r.policy.maxAttempts.toNat (r.exhausted candidate₀)
        (candidate w.byte candidate₀) (r.leaseAt w now)
        (outcome w (r.reserve candidate₀ deadline))

theorem takesFirst {κ ρ σ : Type} [Reservable κ ρ] [SlotKind κ ρ] [Backend σ] [ShowsSlots σ]
    [ClaimsSlots κ ρ σ] : TakesFirst κ ρ σ := fun r w now candidate₀ deadline h =>
  r.choosesFirst_attempts h.clock candidate₀ deadline now _ 0 candidate₀ w h.still h.early

/-- Of the slots of blobs, no others matter to a reservation than those of its first attempts, and
of its first 65536. -/
def DependsOnStamps (σ : Type) [Backend σ] [ShowsSlots σ] [ClaimsSlots StoreId ContentRecord σ] :
    Prop :=
  ∀ (r : Reserver) (w : World σ) now (candidate₀ : StoreId) deadline (b : σ),
    r.InTime w now candidate₀ deadline → r.InTime (w.withBackend b) now candidate₀ deadline →
    (∀ k < min r.policy.maxAttempts.toNat 65536,
      refused? b (nth candidate₀ k) = refused? w.backend (nth candidate₀ k) ∧
        (slotsOf b).blob (nth candidate₀ k) = (slotsOf w.backend).blob (nth candidate₀ k)) →
    (outcome (w.withBackend b) (r.reserve candidate₀ deadline)).1
      = (outcome w (r.reserve candidate₀ deadline)).1

theorem dependsOnStamps {σ : Type} [Backend σ] [ShowsSlots σ]
    [ClaimsSlots StoreId ContentRecord σ] : DependsOnStamps σ := by
  intro r w now candidate₀ deadline b h h' hsame
  refine (takesFirst r w now candidate₀ deadline h).answer_eq
    (takesFirst r _ now candidate₀ deadline h') fun k hk => ?_
  rw [SlotKind.candidate_storeId, ← nth_mod candidate₀ k]
  have hfirst : k % 65536 < min r.policy.maxAttempts.toNat 65536 :=
    Nat.lt_min.mpr ⟨(Nat.mod_le k 65536).trans_lt hk, Nat.mod_lt k (by decide)⟩
  obtain ⟨hroom, hslot⟩ := hsame _ hfirst
  exact ⟨hroom, congrArg (Slots.isOpen now) hslot⟩

/-- Under accepted settings there is room for every blob, and for every file whose reservation is
within the limit. -/
theorem refused?_of_accepted {config : ChunkedConfig} (hvalid : config.validate = .ok ())
    {s : ChunkedStore} (hbare : s.bare = .empty config) (id : StoreId) (file : FileId) :
    refused? s id = none ∧
      refused? s file = if config.maxRecordBytes.toNat < 26 + file.token.utf8ByteSize then
        some (.recordTooLarge "files" (26 + file.token.utf8ByteSize) config.maxRecordBytes.toNat)
      else none := by
  have hblob : ¬s.stores.limit < 24 := by
    rw [ChunkedStore.stores_limit_of_bare hbare]
    exact Nat.not_lt.mpr (ChunkedConfig.reservation_le hvalid id default)
  have hsize : encodedSize (Entry.reserved file default : FileDoc)
      = 26 + file.token.utf8ByteSize := by
    change (8 + file.token.utf8ByteSize) + 17 + 1 = _
    omega
  refine ⟨if_neg hblob, ?_⟩
  change ChunkedStore.roomFor? s.files (Entry.reserved file default) = _
  rw [ChunkedStore.roomFor?, ChunkedStore.tooLarge_files_of_bare hbare,
    ChunkedStore.files_limit_of_bare hbare, hsize]

/-- In any state of either backend, a reservation in time takes the first of its candidates that is
free or whose lease has lapsed, and changes no other slot.  A chunked store may refuse a file
instead whose reservation is too large for it; it refuses no blob, and nothing in memory is
refused. -/
theorem reservation_takes_first {config : ChunkedConfig} (hvalid : config.validate = .ok ()) :
    (TakesFirst StoreId ContentRecord MemoryStore ∧ TakesFirst FileId FileRecord MemoryStore ∧
      TakesFirst StoreId ContentRecord ChunkedStore ∧ TakesFirst FileId FileRecord ChunkedStore) ∧
    (DependsOnStamps MemoryStore ∧ DependsOnStamps ChunkedStore) ∧
    (∀ (m : MemoryStore) (id : StoreId) (file : FileId),
      refused? m id = none ∧ refused? m file = none) ∧
    ∀ s : ChunkedStore, s.bare = .empty config → ∀ (id : StoreId) (file : FileId),
      refused? s id = none ∧
        refused? s file = if config.maxRecordBytes.toNat < 26 + file.token.utf8ByteSize then
          some (.recordTooLarge "files" (26 + file.token.utf8ByteSize) config.maxRecordBytes.toNat)
        else none :=
  ⟨⟨takesFirst, takesFirst, takesFirst, takesFirst⟩, ⟨dependsOnStamps, dependsOnStamps⟩,
    fun _ _ _ => ⟨rfl, rfl⟩, fun _ => refused?_of_accepted hvalid⟩

open Chronicle (start)

/-- The last stamp is committed and the first one under a live lease, so the second stamp is taken,
of which the lease has lapsed. -/
theorem reservation_takes_first_of_lapse :
    let r : Reserver := ⟨.standard, .manual⟩
    let config : ChunkedConfig := ⟨8, 128, 2⟩
    let blob : ContentRecord := .fresh ⟨7, 65535⟩ [1, 2, 3] "text/plain" 3
    let deeds : List ((α : Type) × Deed α) :=
      [⟨_, .standing (.claimStore blob.id ⟨5, 100⟩ 0)⟩,
       ⟨_, .standing (.commitStore ⟨blob.id, ⟨5, 100⟩⟩ blob (by decide) 10 [])⟩,
       ⟨_, .standing (.claimStore ⟨7, 0⟩ ⟨6, 1000⟩ 10)⟩,
       ⟨_, .standing (.claimStore ⟨7, 1⟩ ⟨7, 200⟩ 10)⟩]
    let w : World ChunkedStore := {
      backend := ((start (.empty config)).run deeds).backend, manual := .still 500,
      system := .still 0, timer := 0, tokens := ⟨fun n => UInt64.ofNat (n + 40), 0⟩,
      stamps := ⟨fun _ => 9, 0⟩, stampBytes := ⟨fun _ => 0, 0⟩, jitters := ⟨fun _ => 0, 0⟩,
      today := default }
    let out := outcome w (r.reserve blob.id .never)
    r.InTime w 500 blob.id .never ∧ out.1 = .ok ⟨⟨7, 1⟩, ⟨42, 86400500⟩⟩ ∧
      out.2.storeSlot ⟨7, 1⟩ = .ok (some (.reserved ⟨42, 86400500⟩)) ∧
      out.2.storeSlot blob.id = .ok (some (.committed blob)) := by
  intro r config blob deeds w out
  have htime : r.InTime w 500 blob.id .never := ⟨rfl, rfl, rfl⟩
  have hvalid : config.validate = .ok () := by decide
  have hfirst := (reservation_takes_first hvalid).1.2.2.1 r w 500 blob.id .never htime
  have htaken : ∀ j < 2, Taken w.backend 500 (candidate w.byte blob.id j) := by decide +kernel
  have hlapsed : Claimable w.backend 500 (candidate w.byte blob.id 2) := by decide +kernel
  obtain ⟨hanswer, hslots, hsame⟩ := hfirst.found 2 (by decide) htaken hlapsed
  have hid : candidate w.byte blob.id 2 = ⟨7, 1⟩ := by decide +kernel
  have hlease : r.leaseAt w 500 2 = ⟨42, 86400500⟩ := by decide +kernel
  have hcommitted : w.backend.storeSlot blob.id = .ok (some (.committed blob)) := by decide +kernel
  rw [hid, hlease] at hanswer hslots
  refine ⟨htime, hanswer, ?_, ?_⟩
  · rw [← ChunkedStore.blob_slotsOf, hslots]
    exact SlotKind.slot_set_self (κ := StoreId) ..
  · rw [← ChunkedStore.blob_slotsOf] at hcommitted ⊢
    exact (hsame.blob blob.id blob).mpr hcommitted

end Reserver

end ContentVault
