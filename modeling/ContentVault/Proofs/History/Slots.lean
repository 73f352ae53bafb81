import ContentVault.Proofs.History.Events
set_option autoImplicit false

/-!
# Operations on slots, seen as events

An operation that succeeds in changing a slot map is one event at one identifier; an operation
that fails is no event, and changes nothing.
-/

namespace ContentVault

variable {κ χ ρ : Type}

/-- The event, if it happened to the identifier. -/
def Event.about [DecidableEq κ] (id : κ) : Option (κ × Event χ ρ) → List (Event χ ρ)
  | none => []
  | some (id', event) => if id' = id then [event] else []

namespace SlotMap

variable [Ord κ] [Amends χ ρ]

/-- The event turns the slot of its identifier and no other; without an event nothing changes. -/
def Turned (m n : SlotMap κ ρ) : Option (κ × Event χ ρ) → Prop
  | none => n = m
  | some (id, event) =>
    event.Turns (m.get? id) (n.get? id) ∧ ∀ id', id' ≠ id → n.get? id' = m.get? id'

/-- One more step leads every slot on. -/
theorem Turned.leads [DecidableEq κ] {m n : SlotMap κ ρ} {happened? : Option (κ × Event χ ρ)}
    (h : m.Turned n happened?) {id : κ} {start : Option (Slot ρ)} {events : List (Event χ ρ)}
    (hevents : Leads start events (m.get? id)) :
    Leads start (Event.about id happened? ++ events) (n.get? id) := by
  cases happened? with
  | none =>
    cases h
    exact hevents
  | some happened =>
    obtain ⟨id', event⟩ := happened
    by_cases hid : id' = id
    · subst hid
      rw [Event.about, if_pos rfl]
      exact hevents.event h.1
    · rw [Event.about, if_neg hid, h.2 id (Ne.symm hid)]
      exact hevents

variable [Std.TransOrd κ] [Std.LawfulEqOrd κ] [DecidableEq κ]

theorem turned_insert {m : SlotMap κ ρ} {id : κ} {slot : Slot ρ} {event : Event χ ρ}
    (h : event.Turns (m.get? id) (some slot)) :
    m.Turned (m.insert id slot) (some (id, event)) := by
  refine ⟨?_, fun id' hid => ?_⟩
  · rw [OrderedMap.get?_insert, if_pos rfl]
    exact h
  · rw [OrderedMap.get?_insert, if_neg hid]

omit [Std.TransOrd κ] in
theorem turned_erase {m : SlotMap κ ρ} {id : κ} {event : Event χ ρ}
    (h : event.Turns (m.get? id) none) : m.Turned (m.erase id) (some (id, event)) := by
  refine ⟨?_, fun id' hid => ?_⟩
  · rw [OrderedMap.get?_erase, if_pos rfl]
    exact h
  · rw [OrderedMap.get?_erase, if_neg hid]

theorem turned_claim (m : SlotMap κ ρ) (id : κ) (lease : Lease) (now : UInt64) :
    m.Turned (χ := χ) (m.claim id lease now).2
      (if (m.claim id lease now).1 then some (id, .claimed lease) else none) := by
  cases hclaimed : (m.claim id lease now).1 with
  | false =>
    unfold claim at hclaimed ⊢
    split at hclaimed
    · cases hclaimed
    next hall =>
      rw [if_neg hall]
      rfl
  | true =>
    obtain ⟨hnone, hclaim⟩ := claim_eq_true hclaimed
    rw [hclaim]
    exact turned_insert (.claimed hnone)

omit [Amends χ ρ] [Std.TransOrd κ] [Std.LawfulEqOrd κ] [DecidableEq κ] in
/-- A slot that is accepted as no committed one is, is reserved. -/
theorem exists_reserved {m : SlotMap κ ρ} {id : κ} {accepts : Slot ρ → Bool}
    (hcommitted : ∀ record, accepts (.committed record) = false)
    (h : (m.get? id).any accepts = true) : ∃ lease, m.get? id = some (.reserved lease) := by
  obtain ⟨slot, hslot, haccepts⟩ := (Option.any_eq_true _ _).mp h
  cases slot with
  | reserved lease => exact ⟨lease, hslot⟩
  | committed record => cases (hcommitted record).symm.trans haccepts

theorem turned_commit [Identifier κ] (m : SlotMap κ ρ) (r : Reservation κ) (record : ρ)
    (now : UInt64) :
    m.Turned (χ := χ) (m.commit r record now).2
      (if (m.commit r record now).1.isOk then some (r.id, .committed record) else none) := by
  cases hheld : (m.get? r.id).any (·.isHeldBy r.lease.token now) with
  | false =>
    rw [commit_of_not_held hheld]
    rfl
  | true =>
    obtain ⟨lease, hslot⟩ := exists_reserved (fun _ => rfl) hheld
    rw [commit_of_held hheld]
    refine turned_insert ?_
    rw [hslot]
    exact .committed

omit [Std.TransOrd κ] in
theorem turned_release (m : SlotMap κ ρ) (r : Reservation κ) :
    m.Turned (χ := χ) (m.release r).2
      (if (m.release r).1 then some (r.id, .released) else none) := by
  unfold release
  cases hleased : (m.get? r.id).any (·.isLeasedTo r.lease.token) with
  | false => rfl
  | true =>
    obtain ⟨lease, hslot⟩ := exists_reserved (fun _ => rfl) hleased
    refine turned_erase ?_
    rw [hslot]
    exact .released

theorem turned_replace (m : SlotMap κ ρ) (id : κ) (change : χ) :
    m.Turned (m.replace id (Amends.amend change)).2
      (if (m.replace id (Amends.amend change)).1 then some (id, .changed change) else none) := by
  unfold replace
  cases hrecord : m.record? id with
  | none => rfl
  | some record =>
    refine turned_insert ?_
    rw [record?_eq_some hrecord]
    exact .changed

omit [Std.TransOrd κ] in
theorem turned_remove (m : SlotMap κ ρ) (id : κ) :
    m.Turned (χ := χ) (m.remove id).2
      (if (m.remove id).1 then some (id, .removed) else none) := by
  unfold remove
  cases hrecord : m.record? id with
  | none => rfl
  | some record =>
    refine turned_erase ?_
    rw [record?_eq_some hrecord]
    exact .removed

end SlotMap

end ContentVault
