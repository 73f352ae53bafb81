import ContentVault.Proofs.Vault.Choosing
import ContentVault.Proofs.Vault.Phases
import ContentVault.Vault.Config
set_option autoImplicit false

/-!
# Leases that are granted

A lease lasts for the seconds that the settings name, from the reading at which it was granted and
at most to the last reading of the clock.  The seconds are counted in milliseconds of 64 bits.
Whoever claims the identifier at a reading below its end is turned down.
-/

namespace ContentVault

/-! ## How long a lease lasts -/

theorem StoreConfig.reservationTtlSecs_ne_zero {c : StoreConfig} (h : c.validate = .ok ()) :
    c.reservationTtlSecs ≠ 0 := by
  intro hzero
  unfold validate at h
  rw [if_pos hzero] at h
  split at h
  · cases h
  · split at h <;> cases h

/-- Milliseconds of the settings, of which 64 bits are kept. -/
theorem StoreConfig.toNat_millisWord_ttl (c : StoreConfig) :
    c.reservationPolicy.ttl.millisWord.toNat
      = 1000 * c.reservationTtlSecs.toNat % UInt64.size := by
  change (UInt64.ofNat (Duration.ofSecs c.reservationTtlSecs.toNat).millis).toNat = _
  rw [Duration.millis_ofSecs, UInt64.toNat_ofNat', UInt64.size]

/-- A lease is live when it is granted, unless it lasts no time or the clock is at its last
reading. -/
theorem Lease.lt_expiry_iff (now span : UInt64) :
    now < expiry now span ↔ span.toNat ≠ 0 ∧ now.toNat < UInt64.size - 1 := by
  rw [UInt64.lt_iff_toNat_lt, toNat_expiry]
  omega

/-! ## What is granted -/

section

variable {κ ρ σ : Type} [Reservable κ ρ] [SlotKind κ ρ] [Backend σ] {kind : World Unit → Prop}

/-- What is granted was claimed at a reading, under a lease from that reading on. -/
def Granted (kind : World Unit → Prop) (s : Reserver) (before : σ) (r : Reservation κ)
    (after : σ) : Prop :=
  ∃ around, kind around ∧
    r.lease.expiresAt = Lease.expiry (around.clock s.clock).read.1 s.policy.ttl.millisWord ∧
    SlotClaim.claim r.id r.lease (around.clock s.clock).read.1 before = (.ok true, after)

/-- What comes of a reservation: an identifier of which `P` holds is granted, or nothing changes. -/
def GrantsOrKeeps (kind : World Unit → Prop) (s : Reserver) (P : κ → Prop) (before : σ) :
    Option (Reservation κ) → σ → Prop
  | some r, after => P r.id ∧ Granted kind s before r after
  | none, after => after = before

variable [ShowsSlots σ] [ClaimsSlots κ ρ σ]

namespace Reserver

variable (s : Reserver)

/-- An attempt is granted the identifier, or changes nothing. -/
theorem ensures_attempt_granted {P : κ → Prop} {id : κ} (hid : P id) (b : σ) :
    Ensures kind (fun answer => GrantsOrKeeps kind s P b answer.toOption.join) (s.attempt id)
      b := by
  rw [attempt_eq]
  refine Ensures.bind ((s.ensures_draw b).weaken ?_)
  rintro ⟨now, lease⟩ b' ⟨hb, around, hkind, hnow, hexpires⟩
  replace hb : b' = b := hb
  replace hnow : now = (around.clock s.clock).read.1 := hnow
  subst hb hnow
  refine Ensures.bind (SlotKind.ensures_claim ?_)
  change GrantsOrKeeps kind s P b' (attempted id lease
    (SlotClaim.claim id lease (around.clock s.clock).read.1 b').1).toOption.join _
  rcases ClaimsSlots.claim_cases b' id lease (around.clock s.clock).read.1
    with ⟨e, _, hclaim⟩ | ⟨_, _, hclaim⟩ | ⟨_, _, hclaimed, _⟩
  · rw [hclaim]
    rfl
  · rw [hclaim]
    rfl
  · rw [hclaimed]
    exact ⟨hid, around, hkind, hexpires, Prod.ext hclaimed rfl⟩

/-- A reservation is granted one identifier, of which holds what is kept from each candidate to the
next, or it changes nothing. -/
theorem ensures_granted {P : κ → Prop} (hP : ∀ id byte, P id → P (SlotKind.mutate id byte))
    (candidate : κ) (deadline : Deadline) (remaining count : Nat) {id : κ} (hid : P id) (b : σ) :
    Ensures kind (fun answer => GrantsOrKeeps kind s P b answer.toOption)
      (s.attempts candidate deadline remaining count id) b := by
  induction remaining generalizing count id with
  | zero => rfl
  | succ remaining ih =>
    unfold attempts
    refine Ensures.bind (((isLocal_passed deadline).ensures kind b).weaken ?_)
    rintro passed after hafter
    rw [show after = b from hafter]
    cases passed with
    | true => rfl
    | false =>
      refine Ensures.bind ((s.ensures_attempt_granted hid b).weaken ?_)
      rintro (e | _ | r) b' hgranted
      · exact hgranted
      · rw [show b' = b from hgranted]
        change Ensures kind _ (Reservable.next id >>= fun id => s.policy.backoff count >>= fun _ =>
          s.attempts candidate deadline remaining (count + 1) id) b
        refine Ensures.bind ((SlotKind.ensures_next id b).weaken ?_)
        rintro id' after ⟨hafter, byte, rfl⟩
        rw [show after = b from hafter]
        refine Ensures.bind (((isLocal_backoff s.policy count).ensures kind b).weaken ?_)
        rintro _ after hafter
        rw [show after = b from hafter]
        exact ih (count + 1) (hP id byte hid)
      · exact hgranted

theorem ensures_reserve {P : κ → Prop} (hP : ∀ id byte, P id → P (SlotKind.mutate id byte))
    {candidate : κ} (hcandidate : P candidate) (deadline : Deadline) (b : σ) :
    Ensures kind (fun answer => GrantsOrKeeps kind s P b answer.toOption)
      (s.reserve candidate deadline) b :=
  s.ensures_granted hP candidate deadline s.policy.maxAttempts.toNat 0 hcandidate b

theorem granted_amid (candidate : κ) (deadline : Deadline) (around : Nat → World Unit) (b : σ)
    {r : Reservation κ} (hr : (amid around (s.reserve candidate deadline) b).1 = .ok r) :
    Granted (∃ n, · = around n) s b r (amid around (s.reserve candidate deadline) b).2 := by
  have hreserve : Ensures (∃ n, · = around n) _ (s.reserve candidate deadline) b :=
    s.ensures_reserve (P := fun _ => True) (fun _ _ _ => trivial) trivial deadline b
  have hgranted := hreserve.amid fun n => ⟨n, rfl⟩
  rw [hr] at hgranted
  exact hgranted.2

end Reserver

end

/-! ## Who gets the identifier -/

/-- Nobody is granted the identifier at a reading below the limit. -/
structure TurnsDown {κ ρ σ : Type} [Reservable κ ρ] [SlotClaim κ ρ] [Backend σ] (b : σ) (id : κ)
    (limit : UInt64) : Prop where
  claim : ∀ (lease : Lease) now, now < limit →
    (SlotClaim.claim id lease now b).1 ≠ .ok true ∧ (SlotClaim.claim id lease now b).2 = b
  reserve : ∀ (s : Reserver) (candidate : κ) deadline (around : Nat → World Unit),
    (∀ n, ((around n).clock s.clock).read.1 < limit) →
    ∀ r, (amid around (s.reserve candidate deadline) b).1 = .ok r → r.id ≠ id

section

variable {κ ρ σ : Type} [Reservable κ ρ] [SlotKind κ ρ] [Backend σ] [ShowsSlots σ]
  [ClaimsSlots κ ρ σ]

/-- What is committed is not given away, and neither is what is leased until the lease ends. -/
theorem turnsDown_of_slot {b : σ} {id : κ} {lease : Lease}
    (h : SlotKind.slot (slotsOf b) id = .ok (some (.reserved lease)) ∨
      ∃ record, SlotKind.slot (slotsOf b) id = .ok (some (.committed record))) :
    TurnsDown b id lease.expiresAt := by
  have hclosed : ∀ now, now < lease.expiresAt →
      Slots.isOpen now (SlotKind.slot (slotsOf b) id) = false := by
    intro now hlive
    rcases h with hslot | ⟨record, hslot⟩
    · have hlive : lease.isLive now = true := decide_eq_true hlive
      rw [hslot]
      change (!lease.isLive now) = false
      rw [hlive]
      rfl
    · rw [hslot]
      rfl
  have hclaim : ∀ (other : Lease) now, now < lease.expiresAt →
      (SlotClaim.claim id other now b).1 ≠ .ok true ∧ (SlotClaim.claim id other now b).2 = b := by
    intro other now hlive
    rcases ClaimsSlots.claim_cases b id other now
      with ⟨e, _, hout⟩ | ⟨_, _, hout⟩ | ⟨_, hopen, _⟩
    · rw [hout]
      exact ⟨fun hok => (by cases hok), rfl⟩
    · rw [hout]
      exact ⟨fun hok => (by cases hok), rfl⟩
    · cases (hclosed now hlive).symm.trans hopen
  refine ⟨hclaim, fun s candidate deadline around hearly r hr hid => ?_⟩
  obtain ⟨_, ⟨n, rfl⟩, _, hclaimed⟩ := s.granted_amid candidate deadline around b hr
  subst hid
  exact (hclaim r.lease _ (hearly n)).1 (congrArg Prod.fst hclaimed)

end

/-! ## By which clock -/

/-- Whatever the reservation is granted, it claimed at a reading of the clock below the limit. -/
def Reserver.GrantedBelow {κ ρ : Type} [Reservable κ ρ] [SlotClaim κ ρ] (s : Reserver)
    (candidate : κ) (deadline : Deadline) (around : World Unit) (limit : UInt64) : Prop :=
  ∀ (m : MemoryStore) r, (outcome (around.withBackend m) (s.reserve candidate deadline)).1 = .ok r →
    ∃ now, now < limit ∧ (SlotClaim.claim r.id r.lease now m).1 = .ok true

/-- All readings that are left are below the limit. -/
def Clock.Below (clock : Clock) (limit : UInt64) : Prop :=
  ∀ reading ∈ clock.reading :: clock.later, reading < limit

theorem Clock.Below.read {clock : Clock} {limit : UInt64} (h : clock.Below limit) :
    clock.read.1 < limit ∧ clock.read.2.Below limit := by
  obtain ⟨reading, _ | ⟨next, later⟩⟩ := clock
  · exact ⟨h reading List.mem_cons_self, h⟩
  · exact ⟨h reading List.mem_cons_self, fun x hx => h x (List.mem_cons_of_mem _ hx)⟩

theorem Reserver.run_draw_manual {σ : Type} [Backend σ] {s : Reserver} (hclock : s.clock = .manual)
    (w : World σ) :
    w.run s.draw = ((w.manual.read.1, s.leaseAt w w.manual.read.1 0),
      { w with manual := w.manual.read.2, tokens := w.tokens.draw.2 }) := by
  obtain ⟨policy, clock⟩ := s
  cases hclock
  rfl

/-- By a clock that shows only readings below the limit, all that is granted is claimed below it. -/
theorem Reserver.exists_lt_of_below {κ ρ σ : Type} [Reservable κ ρ] [SlotKind κ ρ] [Backend σ]
    [SlotBackend σ] {s : Reserver} (hclock : s.clock = .manual) {limit : UInt64} (candidate : κ)
    (deadline : Deadline) (remaining count : Nat) (id : κ) (w : World σ)
    (hbelow : w.manual.Below limit) (r : Reservation κ)
    (hr : (outcome w (s.attempts candidate deadline remaining count id)).1 = .ok r) :
    ∃ now, now < limit ∧ (SlotClaim.claim r.id r.lease now w.backend).1 = .ok true := by
  induction remaining generalizing count id w with
  | zero => cases hr
  | succ remaining ih =>
    unfold outcome attempts at hr
    rw [World.run_bind, show w.run deadline.passed = (deadline.isExpired w.timer, w) from rfl] at hr
    cases hpassed : deadline.isExpired w.timer with
    | true =>
      rw [hpassed] at hr
      cases hr
    | false =>
      simp only [hpassed, Bool.false_eq_true, if_false, World.run_bind, run_attempt,
        run_draw_manual hclock] at hr
      let lease := s.leaseAt w w.manual.read.1 0
      rcases hclaim : (SlotClaim.claim id lease w.manual.read.1 w.backend).1 with e | _ | _
      · simp only [hclaim, lease, attempted] at hr
        cases hr
      · have hsame := SlotClaim.unclaimed (ρ := ρ) hclaim
        let v : World σ := { w with manual := w.manual.read.2, tokens := w.tokens.draw.2 }
        obtain ⟨stampBytes, hnext, _⟩ := SlotKind.run_next v id
        obtain ⟨system, timer, jitters, hbackoff⟩ :=
          World.run_backoff s.policy count ({ v with stampBytes } : World σ)
        simp only [hclaim, hsame, attempted, World.run_bind, lease] at hr
        change (((v.run (Reservable.next id)).2.run (s.policy.backoff count)).2.run
          (s.attempts candidate deadline remaining (count + 1) (v.run (Reservable.next id)).1)).1
            = .ok r at hr
        rw [hnext, hbackoff] at hr
        exact ih (count + 1) _ { v with stampBytes, system, timer, jitters } hbelow.read.2 hr
      · simp only [hclaim, lease, attempted] at hr
        cases hr
        exact ⟨_, hbelow.read.1, hclaim⟩

theorem Reserver.grantedBelow_of_below {κ ρ : Type} [Reservable κ ρ] [SlotKind κ ρ] {s : Reserver}
    (hclock : s.clock = .manual) (candidate : κ) (deadline : Deadline) {around : World Unit}
    {limit : UInt64} (hbelow : around.manual.Below limit) :
    s.GrantedBelow candidate deadline around limit := fun m r hr =>
  exists_lt_of_below hclock candidate deadline _ 0 candidate (around.withBackend m) hbelow r hr

end ContentVault
