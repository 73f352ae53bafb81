import ContentVault.Proofs.Store.SlotBackend
import ContentVault.Proofs.Vault.Local
import ContentVault.Vault.Reserver
set_option autoImplicit false

/-!
# Reserving an identifier over any backend

A reserver claims one candidate after the other.  Over a backend that stands for slot maps it
ends as it does over the slot maps, unless a document is refused.
-/

namespace ContentVault

/-- Identifiers that are claimed by one operation of the backend, which is the operation on slots
unless it is refused. -/
class SlotClaim (κ : Type) (ρ : outParam Type) [Reservable κ ρ] where
  claim {σ : Type} [Backend σ] (id : κ) (lease : Lease) (now : UInt64) :
    Atomic σ (Except StoreError Bool)
  run_claim {σ : Type} [Backend σ] (w : World σ) (id : κ) (lease : Lease) (now : UInt64) :
    w.run (Reservable.claim id lease now) = w.onBackend (claim id lease now)
  follows {σ : Type} [Backend σ] [SlotBackend σ] {b : σ} {m : MemoryStore}
    (h : SlotBackend.Models b m) (id : κ) (lease : Lease) (now : UInt64) :
    Follows SlotBackend.Models b (claim id lease now b) (claim id lease now m)
  unclaimed {σ : Type} [Backend σ] [SlotBackend σ] {b : σ} {id : κ} {lease : Lease}
    {now : UInt64} : (claim id lease now b).1 = .ok false → (claim id lease now b).2 = b
  /-- Slots can always be asked. -/
  claim_memory (id : κ) (lease : Lease) (now : UInt64) (m : MemoryStore) :
    ∃ claimed, (claim id lease now m).1 = .ok claimed
  isLocal_next (id : κ) : IsLocal (Reservable.next id)

instance : SlotClaim StoreId ContentRecord where
  claim := Backend.claimStore
  run_claim _ _ _ _ := rfl
  follows h id lease now := SlotBackend.claimStore h id lease now
  unclaimed := SlotBackend.unclaimedStore
  claim_memory _ _ _ _ := ⟨_, rfl⟩
  isLocal_next _ := trivial

instance : SlotClaim FileId FileRecord where
  claim := Backend.claimFile
  run_claim _ _ _ _ := rfl
  follows h id lease now := SlotBackend.claimFile h id lease now
  unclaimed := SlotBackend.unclaimedFile
  claim_memory _ _ _ _ := ⟨_, rfl⟩
  isLocal_next _ := (isLocal_ask (r := .stampByte) trivial).bind fun _ => trivial

namespace Reserver

theorem isLocal_backoff (policy : ReservationPolicy) (attempt : Nat) :
    IsLocal (policy.backoff attempt) := by
  unfold ReservationPolicy.backoff
  split
  · trivial
  · split
    · exact isLocal_ask trivial
    · refine Asks.bind (isLocal_ask ?_) fun _ => isLocal_ask ?_
      · trivial
      · trivial

variable (r : Reserver)

/-- What an attempt draws: the reading of the clock and the lease. -/
def draw : Procedure (UInt64 × Lease) := do
  let now ← ask (.readClock r.clock)
  let token ← ask .leaseToken
  return (now, ⟨token, Lease.expiry now r.policy.ttl.millisWord⟩)

theorem isLocal_draw : IsLocal r.draw :=
  (isLocal_ask (r := .readClock r.clock) trivial).bind fun _ =>
    (isLocal_ask (r := .leaseToken) trivial).bind fun _ => trivial

section

variable {κ ρ : Type} [Reservable κ ρ]

/-- What an attempt answers when its claim was answered. -/
def attempted (id : κ) (lease : Lease) :
    Except StoreError Bool → Except StoreError (Option (Reservation κ))
  | .error e => .error e
  | .ok true => .ok (some ⟨id, lease⟩)
  | .ok false => .ok none

/-- An attempt draws a lease and claims. -/
theorem attempt_eq (id : κ) :
    r.attempt id = (do
      let drawn ← r.draw
      let claimed ← Reservable.claim id drawn.2 drawn.1
      return attempted id drawn.2 claimed) := rfl

variable [SlotClaim κ ρ]

/-- Claims aside, all that a reservation asks is local. -/
theorem asks_reserve {P : {α : Type} → Request α → Prop}
    (hlocal : ∀ {α : Type} {request : Request α}, request.IsLocal → P request)
    (hclaim : ∀ (id : κ) (lease : Lease) (now : UInt64), Asks P (Reservable.claim id lease now))
    (candidate : κ) (deadline : Deadline) : Asks P (r.reserve candidate deadline) := by
  have hattempts : ∀ remaining count id,
      Asks P (r.attempts candidate deadline remaining count id) := by
    intro remaining
    induction remaining with
    | zero => exact fun _ _ => trivial
    | succ remaining ih =>
      intro count id
      rw [attempts]
      refine ((isLocal_passed deadline).imp hlocal).bind fun passed => ?_
      cases passed with
      | true => trivial
      | false =>
        have hattempt : Asks P (r.attempt id) := by
          rw [attempt_eq]
          refine (r.isLocal_draw.imp hlocal).bind fun drawn => ?_
          exact (hclaim id drawn.2 drawn.1).bind fun _ => trivial
        refine hattempt.bind fun answer => ?_
        rcases answer with e | _ | reservation
        · trivial
        · refine ((SlotClaim.isLocal_next id).imp hlocal).bind fun id' => ?_
          exact ((isLocal_backoff r.policy count).imp hlocal).bind fun _ => ih (count + 1) id'
        · trivial
  exact hattempts _ 0 candidate

variable {σ : Type} [Backend σ]

theorem run_attempt (w : World σ) (id : κ) :
    w.run (r.attempt id)
      = (attempted id (w.run r.draw).1.2
          (SlotClaim.claim id (w.run r.draw).1.2 (w.run r.draw).1.1 w.backend).1,
        (w.run r.draw).2.withBackend
          (SlotClaim.claim id (w.run r.draw).1.2 (w.run r.draw).1.1 w.backend).2) := by
  rw [attempt_eq, World.run_bind, World.run_bind, SlotClaim.run_claim, World.onBackend,
    r.isLocal_draw.backend_run w]
  rfl

/-- What a procedure answers, and what becomes of the backend. -/
def outcome {α : Type} (w : World σ) (p : Procedure α) : α × σ :=
  ((w.run p).1, (w.run p).2.backend)

section

variable [SlotBackend σ]

/-- Whatever attempts remain, they end as they do over the slot maps. -/
theorem follows_attempts (candidate : κ) (deadline : Deadline) (remaining count : Nat) (id : κ)
    (w : World σ) {m : MemoryStore} (h : SlotBackend.Models w.backend m) :
    Follows SlotBackend.Models w.backend
      (outcome w (r.attempts candidate deadline remaining count id))
      (outcome (w.withBackend m) (r.attempts candidate deadline remaining count id)) := by
  induction remaining generalizing count id w with
  | zero => exact Or.inr ⟨rfl, h⟩
  | succ remaining ih =>
    unfold outcome attempts
    rw [World.run_bind, World.run_bind, (isLocal_passed deadline).run_withBackend w m]
    have hpassed := (isLocal_passed deadline).backend_run w
    generalize w.run deadline.passed = out at hpassed ⊢
    obtain ⟨passed, w₁⟩ := out
    replace hpassed : w₁.backend = w.backend := hpassed
    rw [← hpassed] at h ⊢
    cases passed with
    | true => exact Or.inr ⟨rfl, h⟩
    | false =>
      simp only [Bool.false_eq_true, if_false, World.run_bind, run_attempt,
        r.isLocal_draw.run_withBackend w₁ m, World.backend_withBackend]
      have hdraw := r.isLocal_draw.backend_run w₁
      generalize w₁.run r.draw = out at hdraw ⊢
      obtain ⟨⟨now, lease⟩, w₂⟩ := out
      replace hdraw : w₂.backend = w₁.backend := hdraw
      rcases SlotClaim.follows h id lease now with ⟨e, he, hclaim⟩ | ⟨hanswer, hmodels⟩
      · simp only [hclaim, attempted]
        exact Or.inl ⟨e, he, rfl⟩
      · rw [← hanswer]
        cases hclaim : (SlotClaim.claim id lease now w₁.backend).1 with
        | error e =>
          exact Or.inr ⟨rfl, hmodels⟩
        | ok claimed =>
          cases claimed with
          | true => exact Or.inr ⟨rfl, hmodels⟩
          | false =>
            -- Nothing was claimed on either side, so the next attempt starts where this one did.
            have hb := SlotClaim.unclaimed (ρ := ρ) hclaim
            have hm := SlotClaim.unclaimed (ρ := ρ) (hanswer ▸ hclaim)
            simp only [attempted, hb, hm, World.run_bind]
            rw [← hdraw, World.withBackend_backend, World.withBackend_withBackend]
            have hnext := SlotClaim.isLocal_next (ρ := ρ) id
            have hbackoff := isLocal_backoff r.policy count
            rw [hnext.run_withBackend w₂ m, hbackoff.run_withBackend _ m]
            have hrest := ih (count + 1) (w₂.run (Reservable.next id)).1
              ((w₂.run (Reservable.next id)).2.run (r.policy.backoff count)).2
            rw [hbackoff.backend_run, hnext.backend_run, hdraw] at hrest
            rw [hdraw]
            exact hrest h

/-- A reservation ends as it does over the slot maps, unless a document is refused. -/
theorem follows_reserve (candidate : κ) (deadline : Deadline) (w : World σ) {m : MemoryStore}
    (h : SlotBackend.Models w.backend m) :
    Follows SlotBackend.Models w.backend (outcome w (r.reserve candidate deadline))
      (outcome (w.withBackend m) (r.reserve candidate deadline)) :=
  r.follows_attempts candidate deadline _ 0 candidate w h

end

/-- Over backends on which claims end alike, the attempts that remain end alike. -/
theorem related_attempts {τ : Type} [Backend τ] {R : σ → τ → Prop}
    (hclaim : ∀ b c, R b c → ∀ (id : κ) lease now,
      (SlotClaim.claim id lease now b).1 = (SlotClaim.claim id lease now c).1 ∧
      R (SlotClaim.claim id lease now b).2 (SlotClaim.claim id lease now c).2)
    (candidate : κ) (deadline : Deadline) (remaining count : Nat) (id : κ) (w : World σ) {c : τ}
    (h : R w.backend c) :
    (outcome w (r.attempts candidate deadline remaining count id)).1
        = (outcome (w.withBackend c) (r.attempts candidate deadline remaining count id)).1 ∧
      R (outcome w (r.attempts candidate deadline remaining count id)).2
        (outcome (w.withBackend c) (r.attempts candidate deadline remaining count id)).2 := by
  induction remaining generalizing count id w c with
  | zero => exact ⟨rfl, h⟩
  | succ remaining ih =>
    unfold outcome attempts
    rw [World.run_bind, World.run_bind, (isLocal_passed deadline).run_withBackend w c]
    have hpassed := (isLocal_passed deadline).backend_run w
    generalize w.run deadline.passed = out at hpassed ⊢
    obtain ⟨passed, w₁⟩ := out
    replace hpassed : w₁.backend = w.backend := hpassed
    rw [← hpassed] at h
    cases passed with
    | true => exact ⟨rfl, h⟩
    | false =>
      simp only [Bool.false_eq_true, if_false, World.run_bind, run_attempt,
        r.isLocal_draw.run_withBackend w₁ c, World.backend_withBackend]
      generalize w₁.run r.draw = out
      obtain ⟨⟨now, lease⟩, w₂⟩ := out
      obtain ⟨hanswer, hrelated⟩ := hclaim w₁.backend c h id lease now
      simp only [← hanswer]
      rcases (SlotClaim.claim id lease now w₁.backend).1 with e | _ | _
      · exact ⟨rfl, hrelated⟩
      · have hnext := SlotClaim.isLocal_next (ρ := ρ) id
        have hbackoff := isLocal_backoff r.policy count
        simp only [attempted, World.run_bind, hnext.run_withBackend, hbackoff.run_withBackend]
        have hrest := ih (count + 1) (w₂.run (Reservable.next id)).1
          (((w₂.run (Reservable.next id)).2.run (r.policy.backoff count)).2.withBackend
            (SlotClaim.claim id lease now w₁.backend).2) hrelated
        exact hrest
      · exact ⟨rfl, hrelated⟩

/-- Over backends on which claims end alike, reservations end alike. -/
theorem related_reserve {τ : Type} [Backend τ] {R : σ → τ → Prop}
    (hclaim : ∀ b c, R b c → ∀ (id : κ) lease now,
      (SlotClaim.claim id lease now b).1 = (SlotClaim.claim id lease now c).1 ∧
      R (SlotClaim.claim id lease now b).2 (SlotClaim.claim id lease now c).2)
    (candidate : κ) (deadline : Deadline) (w : World σ) {c : τ} (h : R w.backend c) :
    (outcome w (r.reserve candidate deadline)).1
        = (outcome (w.withBackend c) (r.reserve candidate deadline)).1 ∧
      R (outcome w (r.reserve candidate deadline)).2
        (outcome (w.withBackend c) (r.reserve candidate deadline)).2 :=
  r.related_attempts hclaim candidate deadline _ 0 candidate w h

section

variable [SlotBackend σ]

/-! ## What a reservation comes to -/

/-- A reservation claims one identifier, or ends with a claim that fails, or with time or attempts
used up and nothing changed.  What holds of the candidate and is kept from each candidate to the
next holds of the identifier. -/
theorem attempts_outcomes (candidate : κ) (deadline : Deadline) {P : κ → Prop}
    (hP : ∀ id (w : World σ), P id → P (w.run (Reservable.next id)).1)
    (remaining count : Nat) (id : κ) (hid : P id) (w : World σ) :
    (∃ e, (e = .timeout ∨ e = r.exhausted candidate) ∧
      outcome w (r.attempts candidate deadline remaining count id) = (.error e, w.backend)) ∨
    (∃ (id' : κ) (lease : Lease) (now : UInt64) (e : StoreError),
      (SlotClaim.claim id' lease now w.backend).1 = .error e ∧
      outcome w (r.attempts candidate deadline remaining count id)
        = (.error e, (SlotClaim.claim id' lease now w.backend).2)) ∨
    (∃ reservation now, P reservation.id ∧
      (SlotClaim.claim reservation.id reservation.lease now w.backend).1 = .ok true ∧
      outcome w (r.attempts candidate deadline remaining count id)
        = (.ok reservation,
          (SlotClaim.claim reservation.id reservation.lease now w.backend).2)) := by
  induction remaining generalizing count id w with
  | zero => exact Or.inl ⟨_, Or.inr rfl, rfl⟩
  | succ remaining ih =>
    unfold outcome attempts
    rw [World.run_bind]
    have hpassed := (isLocal_passed deadline).backend_run w
    generalize w.run deadline.passed = out at hpassed ⊢
    obtain ⟨passed, w₁⟩ := out
    replace hpassed : w₁.backend = w.backend := hpassed
    rw [← hpassed]
    cases passed with
    | true => exact Or.inl ⟨_, Or.inl rfl, rfl⟩
    | false =>
      simp only [Bool.false_eq_true, if_false, World.run_bind, run_attempt]
      have hdraw := r.isLocal_draw.backend_run w₁
      generalize w₁.run r.draw = out at hdraw ⊢
      obtain ⟨⟨now, lease⟩, w₂⟩ := out
      replace hdraw : w₂.backend = w₁.backend := hdraw
      rcases hclaim : (SlotClaim.claim id lease now w₁.backend).1 with e | _ | _
      · simp only [attempted]
        exact Or.inr (Or.inl ⟨id, lease, now, e, hclaim, rfl⟩)
      · have hm := SlotClaim.unclaimed (ρ := ρ) hclaim
        simp only [attempted, hm, World.run_bind]
        rw [← hdraw, World.withBackend_backend]
        have hrest := ih (count + 1) (w₂.run (Reservable.next id)).1 (hP id w₂ hid)
          ((w₂.run (Reservable.next id)).2.run (r.policy.backoff count)).2
        rw [(isLocal_backoff r.policy count).backend_run,
          (SlotClaim.isLocal_next (ρ := ρ) id).backend_run] at hrest
        exact hrest
      · simp only [attempted]
        exact Or.inr (Or.inr ⟨⟨id, lease⟩, now, hid, hclaim, rfl⟩)

/-- A reservation leaves the backend as it is, or as one claim leaves it. -/
theorem outcome_reserve_backend (candidate : κ) (deadline : Deadline) (w : World σ) :
    (outcome w (r.reserve candidate deadline)).2 = w.backend ∨
    ∃ (id : κ) (lease : Lease) (now : UInt64),
      (outcome w (r.reserve candidate deadline)).2
        = (SlotClaim.claim id lease now w.backend).2 := by
  rcases r.attempts_outcomes candidate deadline (P := fun _ => True) (fun _ _ _ => trivial)
      r.policy.maxAttempts.toNat 0 candidate trivial w
    with ⟨e, _, hout⟩ | ⟨id, lease, now, e, _, hout⟩ | ⟨reservation, now, _, _, hout⟩
  · exact Or.inl (congrArg Prod.snd hout)
  · exact Or.inr ⟨id, lease, now, congrArg Prod.snd hout⟩
  · exact Or.inr ⟨reservation.id, reservation.lease, now, congrArg Prod.snd hout⟩

/-- A reservation that fails changes nothing, if claims that fail do not. -/
theorem outcome_reserve_unchanged {candidate : κ} {deadline : Deadline} {w : World σ}
    (hclaim : ∀ (id : κ) lease now, (SlotClaim.claim id lease now w.backend).1 ≠ .ok true →
      (SlotClaim.claim id lease now w.backend).2 = w.backend)
    (hfailed : ∀ reservation,
      (outcome w (r.reserve candidate deadline)).1 ≠ .ok reservation) :
    (outcome w (r.reserve candidate deadline)).2 = w.backend := by
  rcases r.attempts_outcomes candidate deadline (P := fun _ => True) (fun _ _ _ => trivial)
      r.policy.maxAttempts.toNat 0 candidate trivial w
    with ⟨e, _, hout⟩ | ⟨id, lease, now, e, herror, hout⟩ | ⟨reservation, now, _, _, hout⟩
  · exact congrArg Prod.snd hout
  · refine (congrArg Prod.snd hout).trans (hclaim id lease now fun hclaimed => ?_)
    cases herror.symm.trans hclaimed
  · exact absurd (congrArg Prod.fst hout) (hfailed reservation)

end

/-- A reservation of slots claims one identifier, or fails and changes nothing; it fails only when
time or attempts are used up. -/
theorem attempts_cases (candidate : κ) (deadline : Deadline) {P : κ → Prop}
    (hP : ∀ id (w : World MemoryStore), P id → P (w.run (Reservable.next id)).1)
    (remaining count : Nat) (id : κ) (hid : P id) (w : World MemoryStore) :
    (∃ e, (e = .timeout ∨ e = r.exhausted candidate) ∧
      outcome w (r.attempts candidate deadline remaining count id) = (.error e, w.backend)) ∨
    (∃ reservation now, P reservation.id ∧
      (SlotClaim.claim reservation.id reservation.lease now w.backend).1 = .ok true ∧
      outcome w (r.attempts candidate deadline remaining count id)
        = (.ok reservation,
          (SlotClaim.claim reservation.id reservation.lease now w.backend).2)) := by
  rcases r.attempts_outcomes candidate deadline hP remaining count id hid w
    with hused | ⟨id', lease, now, e, hclaim, _⟩ | hreserved
  · exact Or.inl hused
  · obtain ⟨claimed, hanswer⟩ := SlotClaim.claim_memory (ρ := ρ) id' lease now w.backend
    cases hclaim.symm.trans hanswer
  · exact Or.inr hreserved

theorem outcome_reserve_memory (candidate : κ) (deadline : Deadline) (w : World MemoryStore) :
    (∃ e, (e = .timeout ∨ e = r.exhausted candidate) ∧
      outcome w (r.reserve candidate deadline) = (.error e, w.backend)) ∨
    (∃ reservation now,
      (SlotClaim.claim reservation.id reservation.lease now w.backend).1 = .ok true ∧
      outcome w (r.reserve candidate deadline)
        = (.ok reservation,
          (SlotClaim.claim reservation.id reservation.lease now w.backend).2)) := by
  have hcases := r.attempts_cases candidate deadline (P := fun _ => True) (fun _ _ _ => trivial)
    r.policy.maxAttempts.toNat 0 candidate trivial w
  simp only [true_and] at hcases
  exact hcases

end

end Reserver

end ContentVault
