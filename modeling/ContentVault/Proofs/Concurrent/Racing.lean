import ContentVault.Proofs.Concurrent.Crowd
import ContentVault.Proofs.Vault.Reserving
set_option autoImplicit false

/-!
# Attempts in a race

Under a clock that stands still, a reservation without a deadline does nothing but claim one
candidate after the other, in order, until a claim succeeds.  It ends within six requests for each
attempt, and none of them waits for others.
-/

namespace ContentVault.Reserver

/-- The candidate number `k`: each is the one before it with the next stamp. -/
def nth (candidate : StoreId) (k : Nat) : StoreId := StoreId.next^[k] candidate

theorem nth_succ (candidate : StoreId) (k : Nat) :
    nth candidate (k + 1) = (nth candidate k).next := Function.iterate_succ_apply' _ _ _

@[simp] theorem nth_zero (candidate : StoreId) : nth candidate 0 = candidate := rfl

@[simp] theorem hash_nth (candidate : StoreId) (k : Nat) :
    (nth candidate k).hash = candidate.hash := by
  induction k with
  | zero => rfl
  | succ k ih =>
    rw [nth_succ]
    exact ih

theorem toNat_stamp_nth (candidate : StoreId) (k : Nat) :
    (nth candidate k).stamp.toNat = (candidate.stamp.toNat + k) % 65536 := by
  induction k with
  | zero => exact (Nat.mod_eq_of_lt candidate.stamp.toNat_lt).symm
  | succ k ih =>
    have hnext : (nth candidate k).next.stamp = (nth candidate k).stamp + 1 := rfl
    rw [nth_succ, hnext, UInt16.toNat_add, ih]
    have hone : (1 : UInt16).toNat = 1 := rfl
    rw [hone]
    omega

/-- Candidates come back after as many as there are stamps, and not before. -/
theorem nth_inj {candidate : StoreId} {j k : Nat} (hj : j < 65536) (hk : k < 65536) :
    nth candidate j = nth candidate k ↔ j = k := by
  constructor
  · intro h
    have hstamp := congrArg (·.stamp.toNat) h
    simp only [toNat_stamp_nth] at hstamp
    have hlt : candidate.stamp.toNat < 65536 := candidate.stamp.toNat_lt
    omega
  · rintro rfl
    rfl

variable {r : Reserver} {candidate : StoreId} {n : Nat} {now : UInt64}

/-- The procedure is about to claim the candidate number `k`, and the ones after it if that is
taken, as long as they are among the first `n`; it ends with the first claim that succeeds. -/
inductive Racing (r : Reserver) (candidate : StoreId) (n : Nat) (now : UInt64) :
    Nat → Procedure (Except StoreError (Reservation StoreId)) → Prop where
  /-- Looks at the clock of the leases, which stands at `now`. -/
  | read {k : Nat} {next : UInt64 → Procedure (Except StoreError (Reservation StoreId))}
    (h : Racing r candidate n now k (next now)) :
    Racing r candidate n now k (.ask (.readClock r.clock) next)
  /-- Asks for something that has nothing to do with the backend. -/
  | look {k : Nat} {β : Type} (request : Request β)
    {next : β → Procedure (Except StoreError (Reservation StoreId))}
    (hlocal : request.IsLocal) (hwaits : request.waits = false)
    (h : ∀ answer, Racing r candidate n now k (next answer)) :
    Racing r candidate n now k (.ask request next)
  | claim {k : Nat} {lease : Lease}
    {next : Except StoreError Bool → Procedure (Except StoreError (Reservation StoreId))}
    (hlive : lease.isLive now = true)
    (hwon : next (.ok true) = .done (.ok ⟨nth candidate k, lease⟩))
    (hlost : k + 1 < n → Racing r candidate n now (k + 1) (next (.ok false))) :
    Racing r candidate n now k (.ask (.claimStore (nth candidate k) lease now) next)

namespace Racing

/-- Pauses do not take a procedure out of the race. -/
theorem backoff {k : Nat} (policy : ReservationPolicy) (count : Nat)
    {p : Procedure (Except StoreError (Reservation StoreId))} (h : Racing r candidate n now k p) :
    Racing r candidate n now k (policy.backoff count >>= fun _ => p) := by
  unfold ReservationPolicy.backoff
  split
  · exact h
  · split
    · exact .look _ trivial rfl fun _ => h
    · exact .look _ trivial rfl fun _ => .look _ trivial rfl fun _ => h

end Racing

/-- While there are as many attempts left as candidates, attempts race. -/
theorem racing_attempts (hlive : now < Lease.expiry now r.policy.ttl.millisWord)
    (remaining count k : Nat) (hk : k < n) (hleft : n ≤ k + remaining) :
    Racing r candidate n now k
      (r.attempts candidate .never remaining count (nth candidate k)) := by
  induction remaining generalizing count k with
  | zero => omega
  | succ remaining ih =>
    rw [attempts]
    -- The deadline never passes, then the clock is read and a token is drawn.
    refine .look .readTimer trivial rfl fun timer => ?_
    refine .read (.look .leaseToken trivial rfl fun token => ?_)
    refine .claim ?_ rfl fun hnext => ?_
    · exact decide_eq_true hlive
    · have hrest := ih (count + 1) (k + 1) hnext (by omega)
      rw [nth_succ] at hrest
      exact hrest.backoff r.policy count

/-- A reservation races from its candidate on. -/
theorem racing_reserve (hlive : now < Lease.expiry now r.policy.ttl.millisWord) (hn : 0 < n)
    (hleft : n ≤ r.policy.maxAttempts.toNat) :
    Racing r candidate n now 0 (r.reserve candidate .never) :=
  racing_attempts hlive _ 0 0 hn (by omega)

/-! ## Attempts end -/

theorem endsWithin_backoff (policy : ReservationPolicy) (count : Nat) :
    EndsWithin (policy.backoff count) 2 := by
  unfold ReservationPolicy.backoff
  split
  · trivial
  · split
    · exact (EndsWithin.ask rfl).mono (by omega)
    · exact (EndsWithin.ask rfl).bind fun _ => EndsWithin.ask rfl

theorem endsWithin_attempt (r : Reserver) (id : StoreId) : EndsWithin (r.attempt id) 3 :=
  ⟨rfl, fun _ => ⟨rfl, fun _ => ⟨rfl, fun _ => trivial⟩⟩⟩

/-- Each attempt takes six requests at most. -/
theorem endsWithin_attempts (r : Reserver) (candidate : StoreId) (deadline : Deadline)
    (remaining count : Nat) (id : StoreId) :
    EndsWithin (r.attempts candidate deadline remaining count id) (6 * remaining) := by
  induction remaining generalizing count id with
  | zero => trivial
  | succ remaining ih =>
    rw [attempts]
    have hpassed : EndsWithin deadline.passed 1 := ⟨rfl, fun _ => trivial⟩
    have hrest : 6 * (remaining + 1) = 1 + (3 + (2 + 6 * remaining)) := by omega
    rw [hrest]
    refine hpassed.bind fun passed => ?_
    cases passed with
    | true => trivial
    | false =>
      refine (r.endsWithin_attempt id).bind fun answer => ?_
      rcases answer with e | _ | reservation
      · trivial
      · exact (endsWithin_backoff r.policy count).bind fun _ => ih _ _
      · trivial

theorem endsWithin_reserve (r : Reserver) (candidate : StoreId) (deadline : Deadline) :
    EndsWithin (r.reserve candidate deadline) (6 * r.policy.maxAttempts.toNat) :=
  r.endsWithin_attempts candidate deadline _ 0 candidate

end ContentVault.Reserver
