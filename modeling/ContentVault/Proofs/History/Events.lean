import ContentVault.Proofs.Store.Records
set_option autoImplicit false

/-!
# What befalls an identifier

Identifiers are claimed, committed and released; what is committed may be changed or removed.
The slot of an identifier is what these events made of it, each of which befalls a slot of one
kind only: so the slot can be read off the events, and the events off the slot.
-/

namespace ContentVault

/-- Records that may be changed once they are committed; of several changes the last one counts. -/
class Amends (χ ρ : Type) where
  amend : χ → ρ → ρ
  amend_amend (later earlier : χ) (record : ρ) :
    amend later (amend earlier record) = amend later record

instance : Amends Status ContentRecord where
  amend status record := { record with status }
  amend_amend _ _ _ := rfl

instance : Amends FileRecord FileRecord where
  amend record _ := record
  amend_amend _ _ _ := rfl

/-- Something that happened to an identifier. -/
inductive Event (χ ρ : Type) where
  | claimed (lease : Lease)
  | committed (record : ρ)
  | released
  | changed (change : χ)
  | removed
  deriving DecidableEq, Repr

namespace Event

variable {χ ρ : Type}

/-- The event is a claim or ends one. -/
def endsClaim : Event χ ρ → Bool
  | .claimed _ | .committed _ | .released => true
  | .changed _ | .removed => false

/-- What an event makes of a slot that it may befall. -/
inductive Turns [Amends χ ρ] : Event χ ρ → Option (Slot ρ) → Option (Slot ρ) → Prop where
  | claimed {slot : Option (Slot ρ)} {lease : Lease} (h : slot.bind Slot.record? = none) :
    Turns (.claimed lease) slot (some (.reserved lease))
  | committed {lease : Lease} {record : ρ} :
    Turns (.committed record) (some (.reserved lease)) (some (.committed record))
  | released {lease : Lease} : Turns .released (some (.reserved lease)) none
  | changed {change : χ} {record : ρ} :
    Turns (.changed change) (some (.committed record))
      (some (.committed (Amends.amend change record)))
  | removed {record : ρ} : Turns .removed (some (.committed record)) none

/-- The last change among events, the latest of which comes first. -/
def lastChange? (events : List (Event χ ρ)) : Option χ :=
  events.findSome? fun
    | .changed change => some change
    | _ => none

/-- The record after the changes among events, the latest of which comes first. -/
def amended [Amends χ ρ] (events : List (Event χ ρ)) (record : ρ) : ρ :=
  (lastChange? events).elim record (Amends.amend · record)

theorem amended_changed [Amends χ ρ] (change : χ) (events : List (Event χ ρ)) (record : ρ) :
    amended (.changed change :: events) record = Amends.amend change (amended events record) := by
  have hlast : lastChange? (.changed change :: events) = some change := rfl
  unfold amended
  rw [hlast]
  cases lastChange? events with
  | none => rfl
  | some earlier => exact (Amends.amend_amend change earlier record).symm

/-- The lease is that of the latest claim, and the claim has not ended. -/
def OpenClaim (events : List (Event χ ρ)) (lease : Lease) : Prop :=
  ∃ later earlier, events = later ++ .claimed lease :: earlier ∧
    ∀ event ∈ later, event.endsClaim = false

/-- A holder of the token may commit: the latest claim was made with it, has not ended, and its
lease has not lapsed. -/
def Entitles (events : List (Event χ ρ)) (token now : UInt64) : Prop :=
  ∃ lease, OpenClaim events lease ∧ lease.token = token ∧ now < lease.expiresAt

end Event

/-- Events, the latest first, that lead from one slot to another. -/
inductive Leads {χ ρ : Type} [Amends χ ρ] (start : Option (Slot ρ)) :
    List (Event χ ρ) → Option (Slot ρ) → Prop where
  | nothing : Leads start [] start
  | event {event : Event χ ρ} {events : List (Event χ ρ)} {slot slot' : Option (Slot ρ)}
    (h : Leads start events slot) (hturn : event.Turns slot slot') :
    Leads start (event :: events) slot'

namespace Leads

variable {χ ρ : Type} [Amends χ ρ] {events : List (Event χ ρ)} {slot : Option (Slot ρ)}

/-- A free identifier is reserved under a lease exactly when its claim has not ended. -/
theorem reserved_iff (h : Leads none events slot) (lease : Lease) :
    slot = some (.reserved lease) ↔ Event.OpenClaim events lease := by
  constructor
  · rintro rfl
    cases h with
    | event h hturn =>
      cases hturn with
      | claimed _ => exact ⟨[], _, rfl, fun event hevent => by cases hevent⟩
  · rintro ⟨later, earlier, rfl, hlater⟩
    induction later generalizing slot with
    | nil =>
      cases h with
      | event h hturn =>
        cases hturn with
        | claimed _ => rfl
    | cons event later ih =>
      cases h with
      | event h hturn =>
        -- The slot before the last event was reserved, so the event would have ended the claim.
        cases ih (fun event hevent => hlater event (List.mem_cons_of_mem _ hevent)) h
        cases hturn with
        | claimed _ => cases hlater _ List.mem_cons_self
        | committed => cases hlater _ List.mem_cons_self
        | released => cases hlater _ List.mem_cons_self

/-- Of a committed identifier, nothing but changes is heard until it is removed. -/
theorem of_committed {record : ρ} (h : Leads (some (.committed record)) events slot)
    (hkept : .removed ∉ events) :
    (∀ event ∈ events, ∃ change, event = .changed change) ∧
      slot = some (.committed (Event.amended events record)) := by
  induction h with
  | nothing => exact ⟨fun event hevent => (List.not_mem_nil hevent).elim, rfl⟩
  | event h hturn ih =>
    obtain ⟨hchanges, rfl⟩ := ih fun hremoved => hkept (List.mem_cons_of_mem _ hremoved)
    cases hturn with
    | claimed hnone => cases hnone
    | @changed change =>
      rw [Event.amended_changed]
      exact ⟨List.forall_mem_cons.mpr ⟨⟨change, rfl⟩, hchanges⟩, rfl⟩
    | removed => exact absurd List.mem_cons_self hkept

/-- A committed record was once committed, and changed at most since. -/
theorem exists_committed {record : ρ} (h : Leads none events (some (.committed record))) :
    ∃ original later earlier, events = later ++ .committed original :: earlier ∧
      record = Event.amended later original := by
  generalize hslot : some (Slot.committed record) = slot at h
  induction h generalizing record with
  | nothing => cases hslot
  | event h hturn ih =>
    cases hturn with
    | claimed _ => cases hslot
    | committed =>
      cases hslot
      exact ⟨record, [], _, rfl, rfl⟩
    | released => cases hslot
    | @changed change record' =>
      cases hslot
      obtain ⟨original, later, earlier, rfl, rfl⟩ := ih rfl
      exact ⟨original, .changed change :: later, earlier, rfl, (Event.amended_changed _ _ _).symm⟩
    | removed => cases hslot

end Leads

end ContentVault
