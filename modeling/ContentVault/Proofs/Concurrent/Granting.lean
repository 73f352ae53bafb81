import ContentVault.Proofs.Concurrent.Racing
import ContentVault.Proofs.Store.Settings
set_option autoImplicit false

/-!
# Claims that are granted or denied

While there is room for a reservation, a claim is answered.  Of the candidates that a reservation
goes through, those that are taken stay taken, and the first one that is not is granted.
-/

namespace ContentVault

open Reserver (nth)

/-! ## Backends that answer every claim -/

/-- A backend on which a claim of a blob succeeds or not, but does not fail, while there is room for
a reservation. -/
class GrantingBackend (σ : Type) [Backend σ] extends SlotBackend σ where
  /-- There is room for any reservation. -/
  Roomy : σ → Prop
  claim_eq_ok {b : σ} (h : Roomy b) (id : StoreId) (lease : Lease) (now : UInt64) :
    ∃ claimed, (Backend.claimStore id lease now b).1 = .ok claimed
  roomy_claim {b : σ} (h : Roomy b) (id : StoreId) (lease : Lease) (now : UInt64) :
    Roomy (Backend.claimStore id lease now b).2
  roomy_commit {b : Clocked σ} (h : Roomy b.state) (r : Reservation StoreId)
    (record : ContentRecord) : Roomy (Backend.commitStore r record b).2.state

instance : GrantingBackend MemoryStore where
  Roomy _ := True
  claim_eq_ok _ _ _ _ := ⟨_, rfl⟩
  roomy_claim _ _ _ _ := trivial
  roomy_commit _ _ _ := trivial

namespace ChunkedStore

/-- Reservations of blobs are not too large for the store. -/
def TakesReservations (s : ChunkedStore) : Prop :=
  ∀ (id : StoreId) (lease : Lease), encodedSize (Entry.reserved id lease : StoreDoc)
    ≤ s.stores.limit

theorem TakesReservations.of_bare {s t : ChunkedStore} (h : s.TakesReservations)
    (hbare : t.bare = s.bare) : t.TakesReservations := by
  intro id lease
  have hlimit : t.stores.limit = s.stores.limit := congrArg (·.stores.limit) hbare
  rw [hlimit]
  exact h id lease

theorem TakesReservations.claim_eq_ok {s : ChunkedStore} (h : s.TakesReservations) (id : StoreId)
    (lease : Lease) (now : UInt64) :
    ∃ claimed, ((claim id lease now).unclocked s).1 = .ok claimed := by
  rcases s.claim_answer id lease now with ⟨hlt, _⟩ | ⟨_, hanswer⟩
  · exact absurd (h id lease) (Nat.not_le.mpr hlt)
  · exact hanswer

instance : GrantingBackend ChunkedStore where
  Roomy := TakesReservations
  claim_eq_ok h id lease now := h.claim_eq_ok id lease now
  roomy_claim h id lease now := h.of_bare (steady_claim id lease now _)
  roomy_commit h r record := h.of_bare (steady_commit _ _ r record _)

end ChunkedStore

/-! ## Slots that are taken in order -/

/-- Of the slots of a checksum, those of the first `count` candidates may not be claimed, and the
others are free. -/
structure MemoryStore.TakenUpTo (candidate : StoreId) (now : UInt64) (count : Nat)
    (m : MemoryStore) : Prop where
  taken : ∀ k < count, ∃ slot, m.stores.get? (nth candidate k) = some slot ∧
    slot.isClaimable now = false
  free : ∀ id, id.hash = candidate.hash → (∀ k < count, id ≠ nth candidate k) →
    m.stores.get? id = none

namespace MemoryStore.TakenUpTo

variable {candidate : StoreId} {now : UInt64} {count : Nat} {m : MemoryStore}

/-- A candidate that is taken is claimed in vain. -/
theorem claim_taken (h : m.TakenUpTo candidate now count) {k : Nat} (hk : k < count)
    (lease : Lease) :
    Backend.claimStore (nth candidate k) lease now m = (.ok false, m) := by
  obtain ⟨slot, hget, hslot⟩ := h.taken k hk
  have hclaim : m.stores.claim (nth candidate k) lease now = (false, m.stores) := by
    rw [SlotMap.claim, hget, Option.all_some, hslot]
    exact if_neg Bool.false_ne_true
  change (Except.ok (m.stores.claim (nth candidate k) lease now).1,
    { m with stores := (m.stores.claim (nth candidate k) lease now).2 }) = _
  rw [hclaim]

/-- The first candidate that is not taken is claimed, under a live lease. -/
theorem claim_free (h : m.TakenUpTo candidate now count) (hcount : count < 65536) {lease : Lease}
    (hlive : lease.isLive now = true) :
    (Backend.claimStore (nth candidate count) lease now m).1 = .ok true ∧
      (Backend.claimStore (nth candidate count) lease now m).2.TakenUpTo candidate now
        (count + 1) := by
  have hfree : m.stores.get? (nth candidate count) = none := by
    apply h.free _ (Reserver.hash_nth candidate count)
    intro k hk heq
    have hsame := (Reserver.nth_inj hcount (by omega)).mp heq
    omega
  have hclaim : m.stores.claim (nth candidate count) lease now
      = (true, m.stores.insert (nth candidate count) (.reserved lease)) := by
    rw [SlotMap.claim, hfree]
    rfl
  change (Except.ok (m.stores.claim (nth candidate count) lease now).1 : Except StoreError Bool) = _
    ∧ TakenUpTo candidate now (count + 1)
      { m with stores := (m.stores.claim (nth candidate count) lease now).2 }
  rw [hclaim]
  refine ⟨rfl, fun k hk => ?_, fun id hhash hothers => ?_⟩
  · rw [OrderedMap.get?_insert]
    by_cases hlast : k = count
    · subst hlast
      refine ⟨.reserved lease, if_pos rfl, ?_⟩
      rw [Slot.isClaimable, hlive]
      rfl
    · rw [if_neg fun heq => hlast ((Reserver.nth_inj (by omega) hcount).mp heq)]
      exact h.taken k (by omega)
  · rw [OrderedMap.get?_insert, if_neg (hothers count (Nat.lt_succ_self count))]
    exact h.free id hhash fun k hk => hothers k (Nat.lt_succ_of_lt hk)

/-- A commit under a candidate that is taken leaves it taken. -/
theorem commit (h : m.TakenUpTo candidate now count) {r : Reservation StoreId} {k : Nat}
    (hk : k < count) (hid : r.id = nth candidate k) (record : ContentRecord) (now' : UInt64) :
    (ChunkedStore.commitAt now' r record m).2.TakenUpTo candidate now count := by
  by_cases hrecord : record.id = r.id
  · cases hheld : (m.stores.get? r.id).any (·.isHeldBy r.lease.token now') with
    | false =>
      rw [ChunkedStore.commitAt_of_not_held hrecord hheld]
      exact h
    | true =>
      rw [ChunkedStore.commitAt_of_held hrecord hheld]
      refine ⟨fun j hj => ?_, fun id hhash hothers => ?_⟩
      · rw [OrderedMap.get?_insert]
        by_cases heq : nth candidate j = r.id
        · exact ⟨.committed record, if_pos heq, rfl⟩
        · rw [if_neg heq]
          exact h.taken j hj
      · rw [OrderedMap.get?_insert, if_neg (hid ▸ hothers k hk)]
        exact h.free id hhash hothers
  · rw [ChunkedStore.commitAt_of_ne hrecord]
    exact h

end MemoryStore.TakenUpTo

end ContentVault
