import ContentVault.Proofs.History.Retrying
import ContentVault.Proofs.Vault.Leasing
import Mathlib.Data.List.Induction
set_option autoImplicit false

/-!
# What a reservation is good for

Whatever is done after a reservation, as long as it is not given up and others claim at readings
below its end, nobody else is granted the identifier; and until then its holder may commit whatever
fits.
-/

namespace ContentVault

open ChunkedStore (Shows)

/-! ## What happens to an identifier meanwhile -/

/-- What the operation claims, it claims at a reading of the clock below the limit. -/
def Operation.ClaimsBelow (limit : UInt64) : {α : Type} → Operation α → Prop
  | _, .claimStore _ _ now => now < limit
  | _, .claimFile _ _ now => now < limit
  | _, .reserveStore s candidate deadline around => s.GrantedBelow candidate deadline around limit
  | _, .reserveFile s candidate deadline around => s.GrantedBelow candidate deadline around limit
  | _, _ => True

/-- What the deed claims, it claims at a reading of the clock below the limit. -/
def Deed.ClaimsBelow (limit : UInt64) : {α : Type} → Deed α → Prop
  | _, .standing op => op.ClaimsBelow limit
  | _, _ => True

/-- Identifiers of a kind, and what deeds do to them. -/
class SlotEvents (κ : Type) (ρ χ : outParam Type) [DecidableEq κ] [Reservable κ ρ] [SlotKind κ ρ]
    [Amends χ ρ] where
  happened {α : Type} (deed : Deed α) (answer : Except StoreError α) : Option (κ × Event χ ρ)
  happened_error {α : Type} (deed : Deed α) (e : StoreError) : happened deed (.error e) = none
  claimed_below {α : Type} {deed : Deed α} {now limit : UInt64} {m : MemoryStore} {id : κ}
    {lease : Lease} (hbelow : deed.ClaimsBelow limit)
    (h : happened deed ((deed.operation now).perform m).1 = some (id, .claimed lease)) :
    ∃ now', now' < limit ∧ (SlotClaim.claim id lease now' m).1 = .ok true
  leads {σ : Type} [Backend σ] [ChronicledBackend σ] {start m : MemoryStore} {c : Chronicle σ}
    (h : Chronicle.Tells start c m) (id : κ) :
    ∃ before after, SlotKind.slot start.slots id = .ok before ∧
      SlotKind.slot m.slots id = .ok after ∧
      Leads before
        (c.reports.flatMap fun report => Event.about id (happened report.deed report.answer)) after

/-- A blob that a deed claims is claimed at a reading below the limit. -/
theorem Deed.claimed_blob_below {α : Type} {deed : Deed α} {now limit : UInt64} {m : MemoryStore}
    {id : StoreId} {lease : Lease} (hbelow : deed.ClaimsBelow limit)
    (h : deed.onBlob? ((deed.operation now).perform m).1 = some (id, .claimed lease)) :
    ∃ now', now' < limit ∧ (SlotClaim.claim id lease now' m).1 = .ok true := by
  cases deed with
  | standing op =>
    cases op with
    | claimStore id' lease' now' =>
      obtain ⟨hclaimed, hevent⟩ := Option.ite_none_right_eq_some.mp h
      cases hevent
      exact ⟨now', hbelow, congrArg Except.ok hclaimed⟩
    | reserveStore s candidate deadline around =>
      change Operation.onBlob? (.reserveStore s candidate deadline around)
        (Reserver.outcome (around.withBackend m) (s.reserve candidate deadline)).1 = _ at h
      cases hout : (Reserver.outcome (around.withBackend m) (s.reserve candidate deadline)).1 with
      | error e =>
        rw [hout] at h
        cases h
      | ok r =>
        rw [hout] at h
        cases h
        exact hbelow m r hout
    | commitStore r record hlength now' schedule => cases (Option.ite_none_right_eq_some.mp h).2
    | releaseStore r => cases (Option.ite_none_right_eq_some.mp h).2
    | updateStatus id' status => cases (Option.ite_none_right_eq_some.mp h).2
    | _ => cases h
  | commitStore r record hlength clock schedule => cases (Option.ite_none_right_eq_some.mp h).2
  | commitFile r record clock => cases h

/-- A file that a deed claims is claimed at a reading below the limit. -/
theorem Deed.claimed_file_below {α : Type} {deed : Deed α} {now limit : UInt64} {m : MemoryStore}
    {id : FileId} {lease : Lease} (hbelow : deed.ClaimsBelow limit)
    (h : deed.onFile? ((deed.operation now).perform m).1 = some (id, .claimed lease)) :
    ∃ now', now' < limit ∧ (SlotClaim.claim id lease now' m).1 = .ok true := by
  cases deed with
  | standing op =>
    cases op with
    | claimFile id' lease' now' =>
      obtain ⟨hclaimed, hevent⟩ := Option.ite_none_right_eq_some.mp h
      cases hevent
      exact ⟨now', hbelow, congrArg Except.ok hclaimed⟩
    | reserveFile s candidate deadline around =>
      change Operation.onFile? (.reserveFile s candidate deadline around)
        (Reserver.outcome (around.withBackend m) (s.reserve candidate deadline)).1 = _ at h
      cases hout : (Reserver.outcome (around.withBackend m) (s.reserve candidate deadline)).1 with
      | error e =>
        rw [hout] at h
        cases h
      | ok r =>
        rw [hout] at h
        cases h
        exact hbelow m r hout
    | commitFile r record now' => cases (Option.ite_none_right_eq_some.mp h).2
    | releaseFile r => cases (Option.ite_none_right_eq_some.mp h).2
    | updateFile record => cases (Option.ite_none_right_eq_some.mp h).2
    | removeFile id' => cases (Option.ite_none_right_eq_some.mp h).2
    | _ => cases h
  | commitStore r record hlength clock schedule => cases h
  | commitFile r record clock => cases (Option.ite_none_right_eq_some.mp h).2

instance : SlotEvents StoreId ContentRecord Status where
  happened := Deed.onBlob?
  happened_error := Deed.onBlob?_error
  claimed_below := Deed.claimed_blob_below
  leads h id := ⟨_, _, rfl, rfl, h.blobs id⟩

instance : SlotEvents FileId FileRecord FileRecord where
  happened := Deed.onFile?
  happened_error := Deed.onFile?_error
  claimed_below := Deed.claimed_file_below
  leads h id := ⟨_, _, rfl, rfl, h.files id⟩

/-- What happened to an identifier, the latest first. -/
def Chronicle.eventsOf {κ ρ χ σ : Type} [DecidableEq κ] [Reservable κ ρ] [SlotKind κ ρ]
    [Amends χ ρ] [SlotEvents κ ρ χ] (c : Chronicle σ) (id : κ) : List (Event χ ρ) :=
  c.reports.flatMap fun report => Event.about id (SlotEvents.happened report.deed report.answer)

/-- A leased identifier that nobody else is granted, and that is not given up, is leased still or
committed. -/
theorem Leads.of_reserved {χ ρ : Type} [Amends χ ρ] {lease : Lease} {events : List (Event χ ρ)}
    {slot : Option (Slot ρ)} (h : Leads (some (.reserved lease)) events slot)
    (hclaimed : ∀ other, .claimed other ∉ events) (hreleased : .released ∉ events)
    (hremoved : .removed ∉ events) :
    slot = some (.reserved lease) ∨ ∃ record, slot = some (.committed record) := by
  cases h with
  | nothing => exact Or.inl rfl
  | event h hturn =>
    cases hturn with
    | claimed _ => exact absurd List.mem_cons_self (hclaimed _)
    | committed => exact Or.inr ⟨_, rfl⟩
    | released => exact absurd List.mem_cons_self hreleased
    | changed => exact Or.inr ⟨_, rfl⟩
    | removed => exact absurd List.mem_cons_self hremoved

/-- A backend on which deeds are carried out, and that shows its slots. -/
class LeasingBackend (σ : Type) [Backend σ] extends ChronicledBackend σ, ShowsSlots σ

instance : LeasingBackend MemoryStore where
instance : LeasingBackend ChunkedStore where

theorem Event.happened_of_mem_about {κ χ ρ : Type} [DecidableEq κ] {id : κ}
    {happened? : Option (κ × Event χ ρ)} {event : Event χ ρ}
    (h : event ∈ Event.about id happened?) : happened? = some (id, event) := by
  cases happened? with
  | none => cases h
  | some happened =>
    obtain ⟨id', event'⟩ := happened
    change event ∈ if id' = id then [event'] else [] at h
    split at h
    next hid => rw [hid, List.mem_singleton.mp h]
    next => cases h

section

variable {κ ρ χ σ : Type} [DecidableEq κ] [Reservable κ ρ] [SlotKind κ ρ] [Amends χ ρ]
  [SlotEvents κ ρ χ] [Backend σ] {id : κ} {lease : Lease}

/-- The identifier is leased still or committed. -/
def IsKept (id : κ) (lease : Lease) (m : MemoryStore) : Prop :=
  SlotKind.slot m.slots id = .ok (some (.reserved lease)) ∨
    ∃ record, SlotKind.slot m.slots id = .ok (some (.committed record))

theorem Chronicle.Tells.isKept [ChronicledBackend σ] {start m : MemoryStore} {c : Chronicle σ}
    (h : c.Tells start m) (hslot : SlotKind.slot start.slots id = .ok (some (.reserved lease)))
    (hclaimed : ∀ other, .claimed other ∉ c.eventsOf id) (hreleased : .released ∉ c.eventsOf id)
    (hremoved : .removed ∉ c.eventsOf id) : IsKept id lease m := by
  obtain ⟨slot, slot', hbefore, hafter, hleads⟩ := SlotEvents.leads h id
  cases hslot.symm.trans hbefore
  rcases hleads.of_reserved hclaimed hreleased hremoved with rfl | ⟨record, rfl⟩
  · exact Or.inl hafter
  · exact Or.inr ⟨record, hafter⟩

variable [LeasingBackend σ] [ClaimsSlots κ ρ σ] [ClaimsSlots κ ρ MemoryStore]

omit [DecidableEq κ] [Amends χ ρ] [SlotEvents κ ρ χ] [ClaimsSlots κ ρ MemoryStore] in
theorem IsKept.turnsDown {b : σ} {m : MemoryStore} (h : IsKept id lease m)
    (hmodels : SlotBackend.Models b m) : TurnsDown b id lease.expiresAt := by
  refine turnsDown_of_slot ?_
  rw [slotsOf_eq hmodels]
  exact h

omit [ClaimsSlots κ ρ σ] in
/-- No deed that claims below the end of a lease is granted what is leased or committed. -/
theorem IsKept.not_claimed {b : σ} {m : MemoryStore} (h : IsKept id lease m)
    (hmodels : SlotBackend.Models b m) {α : Type} {deed : Deed α}
    (hbelow : deed.ClaimsBelow lease.expiresAt) (other : Lease) :
    SlotEvents.happened deed (carryOut deed b).1 ≠ some (id, .claimed other) := by
  intro hhappened
  obtain ⟨now, ⟨e, _, hout⟩ | ⟨hanswer, _⟩⟩ := ChronicledBackend.follows hmodels deed
  · rw [hout, SlotEvents.happened_error] at hhappened
    cases hhappened
  · rw [hanswer] at hhappened
    obtain ⟨now', hnow', hclaimed⟩ := SlotEvents.claimed_below hbelow hhappened
    have hmemory : SlotBackend.Models m m := rfl
    exact ((h.turnsDown hmemory).claim other now' hnow').1 hclaimed

omit [ClaimsSlots κ ρ σ] in
theorem claimed_not_mem_eventsOf {b : σ} {m : MemoryStore} (hmodels : SlotBackend.Models b m)
    (hslot : SlotKind.slot m.slots id = .ok (some (.reserved lease)))
    (later : List ((α : Type) × Deed α))
    (hbelow : ∀ deed ∈ later, deed.2.ClaimsBelow lease.expiresAt)
    (hreleased : .released ∉ ((Chronicle.start b).run later).eventsOf id)
    (hremoved : .removed ∉ ((Chronicle.start b).run later).eventsOf id) (other : Lease) :
    .claimed other ∉ ((Chronicle.start b).run later).eventsOf id := by
  induction later using List.reverseRecOn generalizing other with
  | nil => exact List.not_mem_nil
  | append_singleton earlier deed ih =>
    let c := (Chronicle.start b).run earlier
    have hevents : ((Chronicle.start b).run (earlier ++ [deed])).eventsOf id
        = Event.about id (SlotEvents.happened deed.2 (carryOut deed.2 c.backend).1)
          ++ c.eventsOf id := by
      rw [Chronicle.run, List.foldl_append]
      rfl
    rw [hevents, List.mem_append, not_or] at hreleased hremoved ⊢
    have hclaimed : ∀ other, .claimed other ∉ c.eventsOf id :=
      ih (fun deed' hdeed' => hbelow deed' (List.mem_append_left _ hdeed')) hreleased.2 hremoved.2
    obtain ⟨n, htells⟩ := (Chronicle.tells_start hmodels).run earlier
    have hkept := htells.isKept hslot hclaimed hreleased.2 hremoved.2
    refine ⟨fun hother => ?_, hclaimed other⟩
    exact hkept.not_claimed htells.models (hbelow deed List.mem_concat_self) other
      (Event.happened_of_mem_about hother)

/-- While it is not given up, nobody else is granted a leased identifier below the lease's end. -/
theorem alone_of_reserved {b : σ} {m : MemoryStore} (hmodels : SlotBackend.Models b m)
    (hslot : SlotKind.slot m.slots id = .ok (some (.reserved lease)))
    (later : List ((α : Type) × Deed α))
    (hbelow : ∀ deed ∈ later, deed.2.ClaimsBelow lease.expiresAt) :
    let c := (Chronicle.start b).run later
    .released ∉ c.eventsOf id → .removed ∉ c.eventsOf id →
      (∀ other, .claimed other ∉ c.eventsOf id) ∧ TurnsDown c.backend id lease.expiresAt := by
  intro c hreleased hremoved
  have hclaimed := claimed_not_mem_eventsOf hmodels hslot later hbelow hreleased hremoved
  obtain ⟨n, htells⟩ := (Chronicle.tells_start hmodels).run later
  exact ⟨hclaimed, (htells.isKept hslot hclaimed hreleased hremoved).turnsDown htells.models⟩

end

/-! ## What a reservation is good for -/

/-- Until its lease ends, blobs that fit can be committed under the reservation. -/
def TakesBlobs {σ : Type} [Backend σ] [ChronicledBackend σ] (fits : ContentRecord → Prop) (b : σ)
    (r : Reservation StoreId) : Prop :=
  ∀ record hlength clock schedule, record.id = r.id → fits record →
    (∀ now, Shows clock now → now < r.lease.expiresAt) →
    (carryOut (.commitStore r record hlength clock schedule) b).1 = .ok ()

/-- Until its lease ends, files that fit can be committed under the reservation. -/
def TakesFiles {σ : Type} [Backend σ] [ChronicledBackend σ]
    (fits : Reservation FileId → FileRecord → Prop) (b : σ) (r : Reservation FileId) : Prop :=
  ∀ (record : FileRecord) (clock : Clock), record.id = r.id → fits r record →
    clock.read.1 < r.lease.expiresAt → (carryOut (.commitFile r record clock) b).1 = .ok ()

/-- The reservation was made at `now`.  Its lease lasts as long as the settings say, in milliseconds
of 64 bits; nobody else is granted the identifier below its end while it is not given up; and it is
good for commits. -/
structure Reservation.Usable {κ ρ χ σ : Type} [DecidableEq κ] [Reservable κ ρ] [SlotKind κ ρ]
    [Amends χ ρ] [SlotEvents κ ρ χ] [Backend σ] [ChronicledBackend σ] (r : Reservation κ)
    (c : StoreConfig) (now : UInt64) (takes : σ → Reservation κ → Prop) (b : σ) : Prop where
  expires : r.lease.expiresAt.toNat
    = min (now.toNat + 1000 * c.reservationTtlSecs.toNat % UInt64.size) (UInt64.size - 1)
  live_iff : r.lease.isLive now = true ↔
    1000 * c.reservationTtlSecs.toNat % UInt64.size ≠ 0 ∧ now.toNat < UInt64.size - 1
  exact : 1000 * c.reservationTtlSecs.toNat < UInt64.size →
    r.lease.expiresAt.toNat
        = min (now.toNat + 1000 * c.reservationTtlSecs.toNat) (UInt64.size - 1) ∧
      (now.toNat < UInt64.size - 1 → r.lease.isLive now = true)
  alone : ∀ later, (∀ deed ∈ later, deed.2.ClaimsBelow r.lease.expiresAt) →
    let after := (Chronicle.start b).run later
    .released ∉ after.eventsOf r.id → .removed ∉ after.eventsOf r.id →
    (∀ other, .claimed other ∉ after.eventsOf r.id) ∧
      TurnsDown after.backend r.id r.lease.expiresAt
  commits : takes b r

section

variable {κ ρ χ σ : Type} [DecidableEq κ] [Reservable κ ρ] [SlotKind κ ρ] [Amends χ ρ]
  [SlotEvents κ ρ χ] [Backend σ] [LeasingBackend σ] [ClaimsSlots κ ρ σ]
  [ClaimsSlots κ ρ MemoryStore] {kind : World Unit → Prop} {s : Reserver} {b after : σ}
  {m : MemoryStore} {r : Reservation κ}

omit [DecidableEq κ] [Amends χ ρ] [SlotEvents κ ρ χ] [ClaimsSlots κ ρ MemoryStore] in
/-- The slot of what was granted is under its lease. -/
theorem Granted.models (h : Granted kind s b r after) (hmodels : SlotBackend.Models b m) :
    ∃ n, SlotBackend.Models after n ∧
      SlotKind.slot n.slots r.id = .ok (some (.reserved r.lease)) := by
  obtain ⟨around, _, _, hclaim⟩ := h
  have hfollows := SlotClaim.follows (ρ := ρ) hmodels r.id r.lease (around.clock s.clock).read.1
  have hcases := ClaimsSlots.claim_cases b r.id r.lease (around.clock s.clock).read.1
  rw [hclaim] at hfollows hcases
  rcases hfollows with ⟨e, _, hout⟩ | ⟨_, hafter⟩
  · cases hout
  · refine ⟨_, hafter, ?_⟩
    rcases hcases with ⟨e, _, hout⟩ | ⟨_, _, hout⟩ | ⟨_, _, _, hslots⟩
    · cases hout
    · cases hout
    · rw [← slotsOf_eq hafter, hslots, SlotKind.slot_set_self]

/-- What is granted under accepted settings is usable. -/
theorem Granted.usable {c : StoreConfig} (hvalid : c.validate = .ok ()) {clock : ClockKind}
    (h : Granted kind ⟨c.reservationPolicy, clock⟩ b r after) (hmodels : SlotBackend.Models b m)
    {takes : σ → Reservation κ → Prop}
    (htakes : ∀ n, SlotBackend.Models after n →
      SlotKind.slot n.slots r.id = .ok (some (.reserved r.lease)) → takes after r) :
    ∃ around, kind around ∧ r.Usable c (around.clock clock).read.1 takes after := by
  obtain ⟨n, hafter, hslot⟩ := h.models hmodels
  obtain ⟨around, hkind, hexpires, _⟩ := h
  have hlive_iff : r.lease.isLive (around.clock clock).read.1 = true ↔
      1000 * c.reservationTtlSecs.toNat % UInt64.size ≠ 0 ∧
        (around.clock clock).read.1.toNat < UInt64.size - 1 := by
    rw [Lease.isLive, decide_eq_true_iff, hexpires, Lease.lt_expiry_iff, c.toNat_millisWord_ttl]
  refine ⟨around, hkind, ?_, hlive_iff, fun hexact => ⟨?_, fun hearly => ?_⟩,
    fun later hbelow => alone_of_reserved hafter hslot later hbelow, htakes n hafter hslot⟩
  · rw [hexpires, Lease.toNat_expiry, c.toNat_millisWord_ttl]
  · rw [hexpires, Lease.toNat_expiry, c.toNat_millisWord_ttl, Nat.mod_eq_of_lt hexact]
  · have hpositive : c.reservationTtlSecs.toNat ≠ 0 := fun hzero =>
      StoreConfig.reservationTtlSecs_ne_zero hvalid (UInt64.toNat_inj.mp hzero)
    refine hlive_iff.mpr ⟨?_, hearly⟩
    rw [Nat.mod_eq_of_lt hexact]
    omega

end

/-! ## Commits under a lease -/

theorem SlotMap.holds_of_reserved {κ ρ : Type} [Ord κ] {m : SlotMap κ ρ} {r : Reservation κ}
    (h : m.get? r.id = some (.reserved r.lease)) {now : UInt64} (hlive : now < r.lease.expiresAt) :
    m.holds r now = true := by
  rw [holds, h]
  change (r.lease.token == r.lease.token && decide (now < r.lease.expiresAt)) = true
  rw [beq_self_eq_true, Bool.true_and, decide_eq_true hlive]

namespace MemoryStore

variable {m : MemoryStore}

theorem takesBlobs {r : Reservation StoreId} (h : m.stores.get? r.id = some (.reserved r.lease)) :
    TakesBlobs (fun _ => True) m r := by
  intro record hlength clock schedule hid _ hlive
  obtain ⟨clock', hcommit⟩ := commitStore_eq m r record clock
  change (Atomic.under clock (commitStore · r record) m).1 = .ok ()
  rw [Atomic.under, hcommit, ChunkedStore.commitAt_of_held hid
    (SlotMap.holds_of_reserved h (hlive _ (Or.inl rfl)))]

theorem takesFiles {r : Reservation FileId} (h : m.files.get? r.id = some (.reserved r.lease)) :
    TakesFiles (fun _ _ => True) m r := by
  intro record clock hid _ hlive
  obtain ⟨clock', hcommit⟩ := commitFile_eq m r record clock
  change (Atomic.under clock (commitFile · r record) m).1 = .ok ()
  rw [Atomic.under, hcommit, ChunkedStore.commitFileAt_eq, if_pos hid,
    SlotMap.commit_of_held (SlotMap.holds_of_reserved h hlive)]

end MemoryStore

namespace ChunkedStore

variable {s : ChunkedStore} {m : MemoryStore} {config : ChunkedConfig}

theorem takesBlobs (hmodels : Models s m) (hbare : s.bare = empty config)
    {r : Reservation StoreId} (h : m.stores.get? r.id = some (.reserved r.lease)) :
    TakesBlobs config.Fits s r := by
  intro record hlength clock schedule hid hfits hlive
  obtain ⟨after, clock', hcommit, _⟩ :=
    commit_of_fits hmodels hbare schedule clock hid hlength hfits fun now hshows =>
      SlotMap.holds_of_reserved h (hlive now hshows)
  change ((commit s.config schedule r record).alone.under clock s).1 = .ok ()
  rw [config_eq_of_bare hbare, Atomic.under, hcommit]

theorem takesFiles (hmodels : Models s m) (hbare : s.bare = empty config)
    {r : Reservation FileId} (h : m.files.get? r.id = some (.reserved r.lease)) :
    TakesFiles (fun r record => config.refusedFile? r record = none) s r := by
  intro record clock hid hfits hlive
  obtain ⟨husable, writer, hrep⟩ := hmodels
  obtain ⟨clock', out, hcommit, hends⟩ := hrep.commitFile_ends husable r record clock
  change (Atomic.under clock (commitFile · r record) s).1 = .ok ()
  rw [Atomic.under, hcommit]
  cases hends with
  | mismatch hne => exact absurd hid hne
  | notReserved _ hfree => cases (SlotMap.holds_of_reserved h hlive).symm.trans hfree
  | refused _ _ he => cases hfits.symm.trans (refusedFile?_of_lt hbare he.1)
  | taken => rfl

end ChunkedStore

/-! ## After any deeds -/

open Chronicle (start)

/-- Whatever goes on around them, reservations under the settings are usable. -/
def GrantsUsable {κ ρ χ σ : Type} [DecidableEq κ] [Reservable κ ρ] [SlotKind κ ρ]
    [Amends χ ρ] [SlotEvents κ ρ χ] [Backend σ] [ChronicledBackend σ] (c : StoreConfig)
    (takes : σ → Reservation κ → Prop) (b : σ) : Prop :=
  ∀ clock (candidate : κ) deadline (around : Nat → World Unit) r,
    let s : Reserver := ⟨c.reservationPolicy, clock⟩
    let out := amid around (s.reserve candidate deadline) b
    out.1 = .ok r → ∃ n, r.Usable c ((around n).clock clock).read.1 takes out.2

theorem grantsUsable {κ ρ χ σ : Type} [DecidableEq κ] [Reservable κ ρ] [SlotKind κ ρ] [Amends χ ρ]
    [SlotEvents κ ρ χ] [Backend σ] [LeasingBackend σ] [ClaimsSlots κ ρ σ]
    [ClaimsSlots κ ρ MemoryStore] {c : StoreConfig}
    (hvalid : c.validate = .ok ()) {takes : σ → Reservation κ → Prop} {b : σ} {m : MemoryStore}
    (hmodels : SlotBackend.Models b m)
    (htakes : ∀ (r : Reservation κ) after n,
      (∃ now, after = (SlotClaim.claim r.id r.lease now b).2) → SlotBackend.Models after n →
      SlotKind.slot n.slots r.id = .ok (some (.reserved r.lease)) → takes after r) :
    GrantsUsable c takes b := by
  intro clock candidate deadline around r s out hr
  have hgranted : Granted (∃ n, · = around n) s b r out.2 :=
    s.granted_amid candidate deadline around b hr
  have hclaimed : ∃ now, out.2 = (SlotClaim.claim r.id r.lease now b).2 := by
    obtain ⟨_, _, _, hclaim⟩ := hgranted
    exact ⟨_, (congrArg Prod.snd hclaim).symm⟩
  obtain ⟨_, ⟨n, rfl⟩, husable⟩ :=
    hgranted.usable hvalid hmodels fun n => htakes r out.2 n hclaimed
  exact ⟨n, husable⟩

/-- After any deeds and amid whatever changes, what is reserved under accepted settings is usable:
its lease lasts as long as the settings say, if their seconds are counted exactly, and until its end
nobody else is granted the identifier and what fits can be committed. -/
theorem granted_leases_are_usable (deeds : List ((α : Type) × Deed α)) (c : StoreConfig)
    (hvalid : c.validate = .ok ()) :
    (let b := ((start MemoryStore.empty).run deeds).backend;
      GrantsUsable c (TakesBlobs (fun _ => True)) b ∧
        GrantsUsable c (TakesFiles (fun _ _ => True)) b) ∧
    ∀ config created, ChunkedStore.create config = .ok created →
      let b := ((start created).run deeds).backend;
      GrantsUsable c (TakesBlobs config.Fits) b ∧
        GrantsUsable c (TakesFiles (fun r record => config.refusedFile? r record = none)) b := by
  refine ⟨?_, fun config created hcreate => ?_⟩
  · obtain ⟨m, hm⟩ := Chronicle.tells_inMemory deeds
    refine ⟨grantsUsable hvalid hm.models ?_, grantsUsable hvalid hm.models ?_⟩
    · rintro r after n _ rfl hslot
      exact MemoryStore.takesBlobs (Except.ok.inj hslot)
    · rintro r after n _ rfl hslot
      exact MemoryStore.takesFiles (Except.ok.inj hslot)
  · obtain ⟨⟨m, hm⟩, hbare⟩ := Chronicle.tells_inChunks hcreate deeds
    refine ⟨grantsUsable hvalid hm.models ?_, grantsUsable hvalid hm.models ?_⟩
    · rintro r _ n ⟨now, rfl⟩ hafter hslot
      have hsame := (ChunkedStore.steady_claim r.id r.lease now ⟨_, .still 0⟩).trans hbare
      exact ChunkedStore.takesBlobs hafter hsame (Except.ok.inj hslot)
    · rintro r _ n ⟨now, rfl⟩ hafter hslot
      have hsame := (ChunkedStore.bare_claimFile _ r.id r.lease now).trans hbare
      exact ChunkedStore.takesFiles hafter hsame (Except.ok.inj hslot)

/-- A lapsed lease is taken over; until the new one ends, another claim and another reservation come
to nothing, and the blob can be committed while the clock goes on. -/
theorem granted_leases_are_usable_of_lapse :
    let c : StoreConfig := { chunkSize := 8, maxRecordBytes := 128 }
    let world (now : UInt64) : World Unit := {
      backend := (), manual := .still now, system := .still 0, timer := 0,
      tokens := ⟨fun _ => 1, 0⟩, stamps := ⟨fun _ => 9, 0⟩, stampBytes := ⟨fun _ => 0, 0⟩,
      jitters := ⟨fun _ => 0, 0⟩, today := default }
    let s : Reserver := ⟨c.reservationPolicy, .manual⟩
    let r : Reservation StoreId := ⟨⟨7, 9⟩, ⟨1, 86400200⟩⟩
    let blob : ContentRecord := .fresh r.id [1, 2, 3] "text/plain" 3
    let deeds : List ((α : Type) × Deed α) := [⟨_, .standing (.claimStore r.id ⟨5, 100⟩ 0)⟩]
    let later : List ((α : Type) × Deed α) :=
      [⟨_, .standing (.claimStore r.id ⟨6, 86500000⟩ 86400199)⟩,
       ⟨_, .standing (.reserveStore s r.id .never (world 86400199))⟩]
    let out := amid (fun _ => world 200) (s.reserve r.id .never)
      ((start (ChunkedStore.empty c.chunked)).run deeds).backend
    c.validate = .ok () ∧ out.1 = .ok r ∧
      TurnsDown ((start out.2).run later).backend r.id r.lease.expiresAt ∧
      (carryOut (.commitStore r blob (by decide) ⟨200, [86400199]⟩ [1]) out.2).1 = .ok () := by
  intro c world s r blob deeds later out
  have hvalid : c.validate = .ok () := by decide +kernel
  have hcreate : ChunkedStore.create c.chunked = .ok (.empty c.chunked) := rfl
  have hr : out.1 = .ok r := by decide +kernel
  obtain ⟨n, husable⟩ := ((granted_leases_are_usable deeds c hvalid).2 c.chunked _ hcreate).1
    .manual r.id .never (fun _ => world 200) r hr
  have hbelow : ∀ deed ∈ later, deed.2.ClaimsBelow r.lease.expiresAt := by
    have hnow : (86400199 : UInt64) < r.lease.expiresAt := by decide
    have hclock : (world 86400199).manual.Below r.lease.expiresAt :=
      List.forall_mem_singleton.mpr hnow
    refine List.forall_mem_cons.mpr ⟨hnow, List.forall_mem_singleton.mpr ?_⟩
    exact Reserver.grantedBelow_of_below rfl r.id .never hclock
  refine ⟨hvalid, hr, (husable.alone later hbelow (by decide +kernel) (by decide +kernel)).2,
    husable.commits blob (by decide) _ _ rfl (by decide) ?_⟩
  rintro now (rfl | rfl) <;> decide

/-- Accepted settings under which a lease has lapsed when it is granted. -/
theorem exists_lapsed_lease_granted :
    ∃ (c : StoreConfig) (around : World Unit) (r : Reservation FileId) (record : FileRecord),
      let s : Reserver := ⟨c.reservationPolicy, .manual⟩
      let out := amid (fun _ => around) (s.reserve r.id .never) MemoryStore.empty
      c.validate = .ok () ∧ around.manual = .still 1000 ∧ out.1 = .ok r ∧
        r.lease.expiresAt.toNat
          ≠ min (1000 + 1000 * c.reservationTtlSecs.toNat) (UInt64.size - 1) ∧
        r.lease.isLive 1000 = false ∧ record.id = r.id ∧
        (carryOut (.commitFile r record (.still 1000)) out.2).1 = .error r.notReserved := by
  let c : StoreConfig := { reservationTtlSecs := 2305843009213693952 }
  let around : World Unit := {
    backend := (), manual := .still 1000, system := .still 0, timer := 0,
    tokens := ⟨fun _ => 1, 0⟩, stamps := ⟨fun _ => 9, 0⟩, stampBytes := ⟨fun _ => 0, 0⟩,
    jitters := ⟨fun _ => 0, 0⟩, today := default }
  let id : FileId := ⟨⟨7, 0⟩, [0]⟩
  refine ⟨c, around, ⟨id, ⟨1, 1000⟩⟩, ⟨id, "n", "o", default⟩, by decide +kernel, rfl,
    by decide +kernel, by decide, by decide, rfl, by decide +kernel⟩

end ContentVault
