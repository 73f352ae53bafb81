import ContentVault.Proofs.Concurrent.Racing
import ContentVault.Proofs.Store.Limits
import ContentVault.Proofs.Store.Listing
import ContentVault.Proofs.Vault.Catalogue
import ContentVault.Proofs.Vault.Phases
set_option autoImplicit false

/-!
# Probing for a free identifier

Where no identifier is reserved, a reservation in time ends with the first candidate that no blob
has.  There is such a candidate if fewer blobs have the checksum than attempts are made, because
the candidates differ until all stamps were tried.
-/

namespace ContentVault

/-- What the clocks show at each request of a line: the clock of the leases stands still, and the
timer may go on as long as the deadline has passed at each look at it or at none. -/
structure StandsAt (clock : ClockKind) (deadline : Deadline) (t : Moment) (around : World Unit) :
    Prop where
  wall : around.clock clock = .still t.wall
  timer : deadline.isExpired around.timer = deadline.isExpired t.timer

section

variable {records : List ContentRecord} {m : MemoryStore}

theorem claimStore_of_free {id : StoreId} (hfree : m.stores.get? id = none) (lease : Lease)
    (now : UInt64) :
    Backend.claimStore id lease now m
      = (.ok true, { m with stores := m.stores.insert id (.reserved lease) }) := by
  have hclaim : m.stores.claim id lease now = (true, m.stores.insert id (.reserved lease)) := by
    rw [SlotMap.claim, hfree]
    rfl
  change ((.ok (m.stores.claim id lease now).1,
    { m with stores := (m.stores.claim id lease now).2 }) :
      Except StoreError Bool × MemoryStore) = _
  rw [hclaim]

/-- The identifier of a listed blob cannot be claimed. -/
theorem Lists.claimStore_of_taken (h : Lists records m) {id : StoreId}
    (htaken : m.stores.get? id ≠ none) (lease : Lease) (now : UInt64) :
    Backend.claimStore id lease now m = (.ok false, m) := by
  obtain ⟨slot, hget⟩ := Option.ne_none_iff_exists'.mp htaken
  obtain ⟨record, _, _, rfl⟩ := (h.get?_iff id slot).mp hget
  have hclaim : m.stores.claim id lease now = (false, m.stores) := by
    rw [SlotMap.claim, hget]
    rfl
  change ((.ok (m.stores.claim id lease now).1,
    { m with stores := (m.stores.claim id lease now).2 }) :
      Except StoreError Bool × MemoryStore) = _
  rw [hclaim]

/-- If fewer blobs have the checksum than candidates are tried, one of these is free. -/
theorem Lists.exists_free (h : Lists records m) (id : StoreId) {n : Nat} (hn : n ≤ 65536)
    (hfew : (records.filter (·.id.hash == id.hash)).length < n) :
    ∃ j < n, m.stores.get? (Reserver.nth id j) = none := by
  by_contra hnone
  have htaken : (List.range n).map (Reserver.nth id)
      ⊆ (records.filter (·.id.hash == id.hash)).map (·.id) := by
    intro candidate hcandidate
    obtain ⟨j, hj, rfl⟩ := List.mem_map.mp hcandidate
    have hget : m.stores.get? (Reserver.nth id j) ≠ none := fun hfree =>
      hnone ⟨j, List.mem_range.mp hj, hfree⟩
    obtain ⟨slot, hslot⟩ := Option.ne_none_iff_exists'.mp hget
    obtain ⟨record, hrecord, hid, _⟩ := (h.get?_iff _ slot).mp hslot
    refine List.mem_map.mpr ⟨record, List.mem_filter.mpr ⟨hrecord, ?_⟩, hid⟩
    rw [hid, Reserver.hash_nth]
    exact beq_self_eq_true _
  have hdistinct : ((List.range n).map (Reserver.nth id)).Nodup := by
    refine List.Nodup.map_on (fun j hj k hk heq => ?_) List.nodup_range
    rw [List.mem_range] at hj hk
    exact (Reserver.nth_inj (hj.trans_le hn) (hk.trans_le hn)).mp heq
  have hle := (List.subperm_of_subset hdistinct htaken).length_le
  rw [List.length_map, List.length_map, List.length_range] at hle
  omega

end

namespace Reserver

variable {σ : Type} [Backend σ] [LimitedBackend σ] (r : Reserver)

/-- What a reservation at a moment comes to: it is refused, or a free identifier of the checksum is
under the lease, and that is all that has changed. -/
inductive Reserves (limits : Limits) (now : UInt64) (hash : UInt32) (b : σ) (m : MemoryStore) :
    Except StoreError (Reservation StoreId) → σ → Prop where
  | refused {name : String} {e : StoreError} (hrefused : limits.claim? = some name)
    (hname : e.name = name) : Reserves limits now hash b m (.error e) b
  | granted {reservation : Reservation StoreId} {b' : σ} (hclaim : limits.claim? = none)
    (hhash : reservation.id.hash = hash) (hfree : m.stores.get? reservation.id = none)
    (hexpires : reservation.lease.expiresAt = Lease.expiry now r.policy.ttl.millisWord)
    (hlimited : LimitedBackend.Limited limits b'
      { m with stores := m.stores.insert reservation.id (.reserved reservation.lease) }) :
    Reserves limits now hash b m (.ok reservation) b'

variable {limits : Limits} {b : σ} {m : MemoryStore} {records : List ContentRecord}
  {deadline : Deadline} {t : Moment}

/-- An attempt is refused, takes the identifier, or finds it taken. -/
theorem ensures_attempt_at (hlimited : LimitedBackend.Limited limits b m) (h : Lists records m)
    (id : StoreId) :
    Ensures (StandsAt r.clock deadline t)
      (fun answer b' => match answer with
        | .ok none => b' = b ∧ m.stores.get? id ≠ none
        | .ok (some reservation) => r.Reserves limits t.wall id.hash b m (.ok reservation) b'
        | .error e => r.Reserves limits t.wall id.hash b m (.error e) b')
      (r.attempt id) b := by
  rw [attempt_eq]
  refine Ensures.bind ((r.ensures_draw b).weaken ?_)
  rintro ⟨now, lease⟩ b' ⟨hb, around, hstands, hnow, hexpires⟩
  rw [hstands.wall, Clock.read_still] at hnow
  replace hnow : now = t.wall := hnow
  rw [hb]
  refine Ensures.bind fun _ _ => ?_
  change match attempted id lease (Backend.claimStore id lease now b).1 with
    | .ok none => (Backend.claimStore id lease now b).2 = b ∧ m.stores.get? id ≠ none
    | .ok (some reservation) => r.Reserves limits t.wall id.hash b m (.ok reservation)
      (Backend.claimStore id lease now b).2
    | .error e => r.Reserves limits t.wall id.hash b m (.error e)
      (Backend.claimStore id lease now b).2
  have hobeys := LimitedBackend.obeys_claim hlimited id lease now
  unfold Obeys at hobeys
  cases hclaim : limits.claim? with
  | some name =>
    simp only [hclaim] at hobeys
    obtain ⟨e, hname, hout⟩ := hobeys
    rw [hout]
    exact .refused hclaim hname
  | none =>
    simp only [hclaim] at hobeys
    obtain ⟨hanswer, hmodels⟩ := hobeys
    by_cases hfree : m.stores.get? id = none
    · rw [claimStore_of_free hfree] at hanswer hmodels
      rw [hanswer]
      exact .granted hclaim rfl hfree (hnow ▸ hexpires) hmodels
    · rw [h.claimStore_of_taken hfree] at hanswer
      rw [hanswer]
      exact ⟨SlotBackend.unclaimedStore hanswer, hfree⟩

/-- Attempts in time that reach a free candidate end as they should. -/
theorem ensures_attempts_at (hlimited : LimitedBackend.Limited limits b m) (h : Lists records m)
    (htime : deadline.isExpired t.timer = false) (candidate : StoreId) (remaining count : Nat)
    (id : StoreId) (hfree : ∃ j < remaining, m.stores.get? (nth id j) = none) :
    Ensures (StandsAt r.clock deadline t) (r.Reserves limits t.wall id.hash b m)
      (r.attempts candidate deadline remaining count id) b := by
  induction remaining generalizing count id with
  | zero =>
    obtain ⟨j, hj, _⟩ := hfree
    omega
  | succ remaining ih =>
    unfold attempts
    refine Ensures.bind ((deadline.ensures_passed b).weaken ?_)
    rintro passed _ ⟨rfl, around, hstands, hpassed⟩
    rw [hstands.timer, htime] at hpassed
    rw [hpassed]
    refine Ensures.bind ((r.ensures_attempt_at hlimited h id).weaken ?_)
    rintro (e | _ | reservation) b' hattempt
    · exact hattempt
    · obtain ⟨rfl, htaken⟩ := hattempt
      change Ensures _ _ (r.policy.backoff count >>= fun _ =>
        r.attempts candidate deadline remaining (count + 1) id.next) _
      refine Ensures.bind (((isLocal_backoff r.policy count).ensures _ _).weaken ?_)
      rintro _ _ rfl
      refine ih (count + 1) id.next ?_
      obtain ⟨j, hj, hget⟩ := hfree
      cases j with
      | zero => exact absurd hget htaken
      | succ j => exact ⟨j, by omega, hget⟩
    · exact hattempt

/-- A reservation in time ends with a free identifier, if there are attempts enough. -/
theorem ensures_reserve_at (hlimited : LimitedBackend.Limited limits b m) (h : Lists records m)
    (htime : deadline.isExpired t.timer = false) (candidate : StoreId)
    (hfew : (records.filter (·.id.hash == candidate.hash)).length
      < min r.policy.maxAttempts.toNat 65536) :
    Ensures (StandsAt r.clock deadline t) (r.Reserves limits t.wall candidate.hash b m)
      (r.reserve candidate deadline) b := by
  obtain ⟨j, hj, hfree⟩ := h.exists_free candidate (Nat.min_le_right _ _) hfew
  exact r.ensures_attempts_at hlimited h htime candidate _ 0 candidate
    ⟨j, hj.trans_le (Nat.min_le_left _ _), hfree⟩

end Reserver

end ContentVault
