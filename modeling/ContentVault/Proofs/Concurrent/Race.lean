import ContentVault.Proofs.Concurrent.Granting
import ContentVault.Proofs.History.Chronicle
import ContentVault.Proofs.Store.Fitting
import Mathlib.Data.Fintype.Card
set_option autoImplicit false

/-!
# A race for one candidate

Reservations of one candidate run side by side while whoever has won commits.  The identifiers
that were won are always the first candidates in order, one for each winner, and a reservation that
is under way is about to claim one of those or the one after them.  So none of them comes to a
candidate that it may not claim any more, and all of them win.
-/

namespace ContentVault

open Reserver (nth Racing)

/-! ## The race -/

/-- What happens next in a race of `n` clients. -/
inductive RaceEvent (n : Nat) where
  /-- A client goes on with its reservation. -/
  | go (client : Fin n) (around : World Unit)
  /-- A client that has won commits a record. -/
  | commit (client : Fin n) (record : ContentRecord)
    (hlength : record.content.length < UInt64.size) (around : World Unit)

namespace RaceEvent

variable {n : Nat}

/-- The surroundings of an event. -/
def around : RaceEvent n → World Unit
  | .go _ around => around
  | .commit _ _ _ around => around

/-- A client goes on. -/
def isTurnOf (client : Fin n) : RaceEvent n → Bool
  | .go client' _ => client' == client
  | .commit _ _ _ _ => false

end RaceEvent

/-- Clients that reserve identifiers over one backend. -/
abbrev Race (σ : Type) (n : Nat) := Crowd σ (Fin n) (Except StoreError (Reservation StoreId))

namespace Race

variable {σ : Type} {n : Nat}

/-- All clients are about to reserve the candidate. -/
def start (reserver : Reserver) (candidate : StoreId) (backend : σ) : Race σ n :=
  Crowd.start backend fun _ => reserver.reserve candidate .never

/-- The identifier that a client has won, if it is finished and has not failed. -/
def prize? (race : Race σ n) (client : Fin n) : Option StoreId :=
  match race.members client with
  | .done (.ok reservation) => some reservation.id
  | _ => none

/-- The client has won the identifier. -/
def Won (race : Race σ n) (client : Fin n) (id : StoreId) : Prop := race.prize? client = some id

instance (race : Race σ n) (client : Fin n) (id : StoreId) : Decidable (race.Won client id) :=
  inferInstanceAs (Decidable (race.prize? client = some id))

theorem won_of_members_eq {race : Race σ n} {client : Fin n} {reservation : Reservation StoreId}
    (h : race.members client = .done (.ok reservation)) : race.Won client reservation.id := by
  rw [Won, prize?, h]

theorem Won.exists_members_eq {race : Race σ n} {client : Fin n} {id : StoreId}
    (h : race.Won client id) : ∃ lease, race.members client = .done (.ok ⟨id, lease⟩) := by
  rw [Won, prize?] at h
  split at h
  next reservation hdone =>
    cases h
    exact ⟨reservation.lease, hdone⟩
  · cases h

variable [Backend σ]

/-- Lets an event happen; nothing does if a client commits that has not won. -/
def advance (reserver : Reserver) (race : Race σ n) : RaceEvent n → Race σ n
  | .go client around => race.step client around
  | .commit client record _ around =>
    match race.members client with
    | .done (.ok reservation) =>
      let out := World.answer (.commitStore reserver.clock reservation record) (race.world around)
      { race with backend := out.2.backend }
    | _ => race

/-- Lets events happen one after the other. -/
def run (reserver : Reserver) (race : Race σ n) (events : List (RaceEvent n)) : Race σ n :=
  events.foldl (advance reserver) race

/-! ## Clients end -/

theorem members_commit (reserver : Reserver) (race : Race σ n) (client : Fin n)
    (record : ContentRecord) (hlength : record.content.length < UInt64.size)
    (around : World Unit) :
    (race.advance reserver (.commit client record hlength around)).members = race.members := by
  rw [advance]
  split <;> rfl

/-- A client ends after as many turns as it may put requests. -/
theorem endsWithin_run (reserver : Reserver) (events : List (RaceEvent n)) (race : Race σ n)
    (client : Fin n) (left : Nat)
    (h : EndsWithin (race.members client) (left + events.countP (·.isTurnOf client))) :
    EndsWithin ((race.run reserver events).members client) left := by
  induction events generalizing race with
  | nil => exact h
  | cons event events ih =>
    apply ih (race.advance reserver event)
    cases event with
    | commit other record hlength around =>
      rw [members_commit]
      exact h
    | go other around =>
      rw [List.countP_cons] at h
      by_cases heq : other = client
      · subst heq
        rw [RaceEvent.isTurnOf, if_pos (beq_self_eq_true other)] at h
        exact Crowd.endsWithin_step h around
      · rw [RaceEvent.isTurnOf, if_neg (by simpa using heq)] at h
        rw [advance, Crowd.members_step_of_ne race (Ne.symm heq)]
        exact h

end Race

/-! ## The invariant -/

namespace Race

variable {σ : Type} {n : Nat} [Backend σ] [GrantingBackend σ]

/-- The winners have the first candidates, in order, and nobody has come beyond the one after
those. -/
structure Upheld (reserver : Reserver) (candidate : StoreId) (now : UInt64) (race : Race σ n)
    (winners : List (Fin n)) : Prop where
  room : GrantingBackend.Roomy race.backend
  nodup : winners.Nodup
  won : ∀ k client, winners[k]? = some client → race.Won client (nth candidate k)
  racing : ∀ client, client ∉ winners → ∃ k ≤ winners.length,
    Racing reserver candidate n now k (race.members client)
  slots : ∃ m, SlotBackend.Models race.backend m ∧ m.TakenUpTo candidate now winners.length

variable {reserver : Reserver} {candidate : StoreId} {now : UInt64} {race : Race σ n}
  {winners : List (Fin n)}

/-- As long as somebody is under way, there are fewer winners than clients. -/
theorem Upheld.length_lt (h : Upheld reserver candidate now race winners) {client : Fin n}
    (hclient : client ∉ winners) : winners.length < n := by
  have hnodup : (client :: winners).Nodup := List.nodup_cons.mpr ⟨hclient, h.nodup⟩
  have hle := hnodup.length_le_card
  rw [List.length_cons, Fintype.card_fin] at hle
  exact hle

/-- Who is finished has won. -/
theorem Upheld.mem_of_done (h : Upheld reserver candidate now race winners) {client : Fin n}
    {answer : Except StoreError (Reservation StoreId)}
    (hdone : race.members client = .done answer) : client ∈ winners := by
  by_contra hout
  obtain ⟨k, _, hracing⟩ := h.racing client hout
  rw [hdone] at hracing
  cases hracing

/-- A request that has nothing to do with the backend moves one client only. -/
theorem Upheld.answered_local (h : Upheld reserver candidate now race winners) {client : Fin n}
    (hclient : client ∉ winners) {k : Nat} (hk : k ≤ winners.length) {β : Type}
    {next : β → Procedure (Except StoreError (Reservation StoreId))} {out : β × World σ}
    (hbackend : out.2.backend = race.backend)
    (hnext : Racing reserver candidate n now k (next out.1)) :
    Upheld reserver candidate now (race.answered client next out) winners := by
  refine ⟨?_, h.nodup, fun j other hother => ?_, fun other hother => ?_, ?_⟩
  · rw [race.backend_answered, hbackend]
    exact h.room
  · obtain ⟨lease, hlease⟩ := (h.won j other hother).exists_members_eq
    refine won_of_members_eq ((race.members_answered_of_ne client next out ?_).trans hlease)
    rintro rfl
    exact hclient (List.mem_of_getElem? hother)
  · by_cases heq : other = client
    · subst heq
      refine ⟨k, hk, ?_⟩
      rw [race.members_answered_self]
      exact hnext
    · rw [race.members_answered_of_ne client next out heq]
      exact h.racing other hother
  · rw [race.backend_answered, hbackend]
    exact h.slots

/-- A candidate that is taken is claimed in vain, and the client goes on to the next one. -/
theorem Upheld.answered_lost (h : Upheld reserver candidate now race winners) {client : Fin n}
    (hclient : client ∉ winners) {k : Nat} (hk : k < winners.length) {lease : Lease}
    {next : Except StoreError Bool → Procedure (Except StoreError (Reservation StoreId))}
    (hlost : k + 1 < n → Racing reserver candidate n now (k + 1) (next (.ok false)))
    {around : World Unit} :
    Upheld reserver candidate now (race.answered client next
      (World.answer (.claimStore (nth candidate k) lease now) (race.world around))) winners := by
  have hanswer : (Backend.claimStore (nth candidate k) lease now race.backend).1 = .ok false := by
    obtain ⟨m, hmodels, htaken⟩ := h.slots
    obtain ⟨claimed, hok⟩ :=
      GrantingBackend.claim_eq_ok h.room (nth candidate k) lease now
    rcases SlotBackend.claimStore hmodels (nth candidate k) lease now
      with ⟨e, _, hout⟩ | ⟨hsame, _⟩
    · rw [hout] at hok
      cases hok
    · rw [hsame, htaken.claim_taken hk]
  have hlt := h.length_lt hclient
  refine h.answered_local hclient (k := k + 1) hk (SlotBackend.unclaimedStore hanswer) ?_
  change Racing _ _ _ _ _ (next (Backend.claimStore (nth candidate k) lease now race.backend).1)
  rw [hanswer]
  exact hlost (by omega)

/-- The first candidate that is not taken is won. -/
theorem Upheld.answered_won (h : Upheld reserver candidate now race winners) (hn : n ≤ 65536)
    {client : Fin n} (hclient : client ∉ winners) {lease : Lease}
    (hlive : lease.isLive now = true)
    {next : Except StoreError Bool → Procedure (Except StoreError (Reservation StoreId))}
    (hwon : next (.ok true) = .done (.ok ⟨nth candidate winners.length, lease⟩))
    {around : World Unit} :
    Upheld reserver candidate now (race.answered client next
      (World.answer (.claimStore (nth candidate winners.length) lease now) (race.world around)))
      (winners ++ [client]) := by
  obtain ⟨m, hmodels, htaken⟩ := h.slots
  have hlt := h.length_lt hclient
  obtain ⟨hanswer, htaken'⟩ := htaken.claim_free (by omega) hlive
  have hout : (Backend.claimStore (nth candidate winners.length) lease now race.backend).1
        = .ok true ∧
      SlotBackend.Models
        (Backend.claimStore (nth candidate winners.length) lease now race.backend).2
        (Backend.claimStore (nth candidate winners.length) lease now m).2 := by
    obtain ⟨claimed, hok⟩ :=
      GrantingBackend.claim_eq_ok h.room (nth candidate winners.length) lease now
    rcases SlotBackend.claimStore hmodels (nth candidate winners.length) lease now
      with ⟨e, _, hout⟩ | ⟨hsame, hmodels'⟩
    · rw [hout] at hok
      cases hok
    · exact ⟨hsame.trans hanswer, hmodels'⟩
  have hmembers : ∀ other, other ≠ client → (race.answered client next
      (World.answer (.claimStore (nth candidate winners.length) lease now)
        (race.world around))).members other = race.members other :=
    fun other hother => race.members_answered_of_ne client next _ hother
  constructor
  case room => exact GrantingBackend.roomy_claim h.room _ lease now
  case nodup => exact List.nodup_append.mpr ⟨h.nodup, List.nodup_singleton client, by
    rintro other hother _ hmem rfl
    exact hclient (List.mem_singleton.mp hmem ▸ hother)⟩
  case won =>
    intro k other hother
    rw [List.getElem?_append] at hother
    split at hother
    next hk =>
      obtain ⟨lease', hlease'⟩ := (h.won k other hother).exists_members_eq
      refine won_of_members_eq ((hmembers other ?_).trans hlease')
      rintro rfl
      exact hclient (List.mem_of_getElem? hother)
    next hk =>
      rw [List.getElem?_singleton] at hother
      split at hother
      next hzero =>
        have hlast : k = winners.length := by omega
        cases hother
        subst hlast
        have hnext : next (Backend.claimStore (nth candidate winners.length) lease now
            race.backend).1 = .done (.ok ⟨nth candidate winners.length, lease⟩) := by
          rw [hout.1, hwon]
        have hmember := race.members_answered_self client next
          (World.answer (.claimStore (nth candidate winners.length) lease now) (race.world around))
        exact won_of_members_eq (hmember.trans hnext)
      · cases hother
  case racing =>
    intro other hother
    rw [List.mem_append, List.mem_singleton, not_or] at hother
    obtain ⟨k, hk, hracing⟩ := h.racing other hother.1
    refine ⟨k, ?_, ?_⟩
    · rw [List.length_append]
      omega
    · rw [hmembers other hother.2]
      exact hracing
  case slots =>
    refine ⟨_, hout.2, ?_⟩
    rw [List.length_append]
    exact htaken'

/-- A client that has won may commit. -/
theorem Upheld.committed (h : Upheld reserver candidate now race winners) {client : Fin n}
    {reservation : Reservation StoreId}
    (hdone : race.members client = .done (.ok reservation)) {record : ContentRecord}
    (hlength : record.content.length < UInt64.size) {around : World Unit} :
    Upheld reserver candidate now
      { race with backend := (World.answer
          (.commitStore reserver.clock reservation record) (race.world around)).2.backend }
      winners := by
  obtain ⟨k, hk⟩ := List.mem_iff_getElem?.mp (h.mem_of_done hdone)
  obtain ⟨hlt, _⟩ := List.getElem?_eq_some_iff.mp hk
  obtain ⟨lease, hlease⟩ := (h.won k client hk).exists_members_eq
  cases hdone.symm.trans hlease
  have hbackend : (World.answer (.commitStore reserver.clock ⟨nth candidate k, lease⟩ record)
      (race.world around)).2.backend
        = (Backend.commitStore ⟨nth candidate k, lease⟩ record
          (⟨race.backend, (race.world around).clock reserver.clock⟩ : Clocked σ)).2.state := by
    change (World.setClock _ reserver.clock _).backend = _
    cases reserver.clock <;> rfl
  rw [hbackend]
  refine ⟨?_, h.nodup, h.won, h.racing, ?_⟩
  · exact GrantingBackend.roomy_commit h.room _ record
  · obtain ⟨m, hmodels, htaken⟩ := h.slots
    obtain ⟨clock', now', out, _, hcommit, hfollows⟩ := SlotBackend.commitStore hmodels
      ⟨nth candidate k, lease⟩ record hlength ((race.world around).clock reserver.clock)
    rw [hcommit]
    rcases hfollows with ⟨e, _, rfl⟩ | ⟨_, hmodels'⟩
    · exact ⟨m, hmodels, htaken⟩
    · exact ⟨_, hmodels', htaken.commit hlt rfl record now'⟩

/-- Whatever happens, the invariant is kept. -/
theorem Upheld.advance (h : Upheld reserver candidate now race winners) (hn : n ≤ 65536)
    (event : RaceEvent n) (hclock : event.around.clock reserver.clock = .still now) :
    ∃ winners', Upheld reserver candidate now (race.advance reserver event) winners' := by
  cases event with
  | commit client record hlength around =>
    rw [Race.advance]
    split
    next reservation hdone => exact ⟨winners, h.committed hdone hlength⟩
    · exact ⟨winners, h⟩
  | go client around =>
    rw [Race.advance]
    by_cases hclient : client ∈ winners
    · obtain ⟨k, hk⟩ := List.mem_iff_getElem?.mp hclient
      obtain ⟨lease, hdone⟩ := (h.won k client hk).exists_members_eq
      rw [Crowd.step_of_done hdone]
      exact ⟨winners, h⟩
    · obtain ⟨k, hk, hracing⟩ := h.racing client hclient
      generalize hmember : race.members client = p at hracing
      cases hracing with
      | @read _ next hnext =>
        have hlocal : (Request.readClock reserver.clock).IsLocal := trivial
        rw [Crowd.step_of_ask hmember (World.blocks_eq_false rfl _)]
        refine ⟨winners, h.answered_local hclient hk (World.backend_answer hlocal _) ?_⟩
        have hread : ((race.world around).clock reserver.clock).read.1 = now := by
          have hsame : (race.world around).clock reserver.clock
              = around.clock reserver.clock := by cases reserver.clock <;> rfl
          rw [hsame, show around.clock reserver.clock = .still now from hclock]
          rfl
        change Racing _ _ _ _ _ (next ((race.world around).clock reserver.clock).read.1)
        rw [hread]
        exact hnext
      | look request hlocal hwaits hnext =>
        rw [Crowd.step_of_ask hmember (World.blocks_eq_false hwaits _)]
        exact ⟨winners, h.answered_local hclient hk (World.backend_answer hlocal _) (hnext _)⟩
      | claim hlive hwon hlost =>
        rw [Crowd.step_of_ask hmember (World.blocks_eq_false rfl _)]
        rcases Nat.lt_or_eq_of_le hk with hlt | rfl
        · exact ⟨winners, h.answered_lost hclient hlt hlost⟩
        · exact ⟨winners ++ [client], h.answered_won hn hclient hlive hwon⟩

theorem Upheld.run (h : Upheld reserver candidate now race winners) (hn : n ≤ 65536)
    (events : List (RaceEvent n))
    (hclock : ∀ event ∈ events, event.around.clock reserver.clock = .still now) :
    ∃ winners', Upheld reserver candidate now (race.run reserver events) winners' := by
  induction events generalizing race winners with
  | nil => exact ⟨winners, h⟩
  | cons event events ih =>
    obtain ⟨winners', h'⟩ := h.advance hn event (hclock event List.mem_cons_self)
    exact ih h' fun event' hevent' => hclock event' (List.mem_cons_of_mem _ hevent')

/-- Before anybody goes on, nobody has won. -/
theorem upheld_start {b : σ} {m : MemoryStore} (hroom : GrantingBackend.Roomy b)
    (hmodels : SlotBackend.Models b m)
    (hfree : ∀ id, id.hash = candidate.hash → m.stores.get? id = none)
    (hattempts : n ≤ reserver.policy.maxAttempts.toNat)
    (hlive : now < Lease.expiry now reserver.policy.ttl.millisWord) :
    Upheld reserver candidate now (start reserver candidate b : Race σ n) [] := by
  refine ⟨hroom, .nil, fun k client h => ?_, fun client _ => ?_, m, hmodels, ?_⟩
  · cases h
  · exact ⟨0, Nat.le_refl 0, Reserver.racing_reserve hlive client.pos hattempts⟩
  · exact ⟨fun k hk => absurd hk (Nat.not_lt_zero k), fun id hhash _ => hfree id hhash⟩

/-! ## What comes of a race -/

/-- However far the race has come, everybody who is finished has won, and the identifiers that were
won are the first candidates in order, each won once. -/
structure Filled (candidate : StoreId) (race : Race σ n) : Prop where
  succeeded : ∀ client answer, race.members client = .done answer → ∃ id, race.Won client id
  distinct : ∀ client client' id, race.Won client id → race.Won client' id → client = client'
  contiguous : ∃ count ≤ n, ∀ id,
    (∃ client, race.Won client id) ↔ ∃ k < count, id = nth candidate k
  /-- Once all are finished, they have won as many candidates as they are. -/
  complete : (∀ client, ∃ answer, race.members client = .done answer) →
    ∀ id, (∃ client, race.Won client id) ↔ ∃ k < n, id = nth candidate k
  /-- One of them has won the candidate itself. -/
  unmutated : (∀ client, ∃ answer, race.members client = .done answer) → 0 < n →
    ∃! client, race.Won client candidate

section

variable (h : Upheld reserver candidate now race winners)
include h

/-- Who has won is among the winners, at the place of what it has won. -/
theorem Upheld.won_iff (client : Fin n) (id : StoreId) :
    race.Won client id ↔ ∃ k, winners[k]? = some client ∧ id = nth candidate k := by
  constructor
  · intro hwon
    obtain ⟨lease, hdone⟩ := hwon.exists_members_eq
    obtain ⟨k, hk⟩ := List.mem_iff_getElem?.mp (h.mem_of_done hdone)
    have hsame : some id = some (nth candidate k) := hwon.symm.trans (h.won k client hk)
    exact ⟨k, hk, Option.some.inj hsame⟩
  · rintro ⟨k, hk, rfl⟩
    exact h.won k client hk

theorem Upheld.exists_won_iff (id : StoreId) :
    (∃ client, race.Won client id) ↔ ∃ k < winners.length, id = nth candidate k := by
  simp only [h.won_iff]
  constructor
  · rintro ⟨client, k, hk, hid⟩
    obtain ⟨hlt, _⟩ := List.getElem?_eq_some_iff.mp hk
    exact ⟨k, hlt, hid⟩
  · rintro ⟨k, hlt, hid⟩
    exact ⟨winners[k], k, List.getElem?_eq_getElem hlt, hid⟩

theorem Upheld.length_le : winners.length ≤ n := by
  have hle := h.nodup.length_le_card
  rwa [Fintype.card_fin] at hle

/-- No identifier is won twice. -/
theorem Upheld.client_eq (hn : n ≤ 65536) {client client' : Fin n} {id : StoreId}
    (hwon : race.Won client id) (hwon' : race.Won client' id) : client = client' := by
  obtain ⟨k, hk, hid⟩ := (h.won_iff client id).mp hwon
  obtain ⟨k', hk', hid'⟩ := (h.won_iff client' id).mp hwon'
  obtain ⟨hlt, _⟩ := List.getElem?_eq_some_iff.mp hk
  obtain ⟨hlt', _⟩ := List.getElem?_eq_some_iff.mp hk'
  have hle := h.length_le
  have hsame : k = k' := (Reserver.nth_inj (by omega) (by omega)).mp (hid.symm.trans hid')
  subst hsame
  exact Option.some.inj (hk.symm.trans hk')

/-- Once all are finished, there are as many winners as clients. -/
theorem Upheld.length_eq (hdone : ∀ client, ∃ answer, race.members client = .done answer) :
    winners.length = n := by
  have hsubset : (Finset.univ : Finset (Fin n)) ⊆ winners.toFinset := by
    intro client _
    obtain ⟨answer, hanswer⟩ := hdone client
    exact List.mem_toFinset.mpr (h.mem_of_done hanswer)
  have hge := Finset.card_le_card hsubset
  rw [List.toFinset_card_of_nodup h.nodup, Finset.card_univ, Fintype.card_fin] at hge
  exact Nat.le_antisymm h.length_le hge

theorem Upheld.filled (hn : n ≤ 65536) : race.Filled candidate := by
  have hcomplete : (∀ client, ∃ answer, race.members client = .done answer) →
      ∀ id, (∃ client, race.Won client id) ↔ ∃ k < n, id = nth candidate k := by
    intro hdone id
    have hlength := h.length_eq hdone
    rw [h.exists_won_iff, hlength]
  constructor
  case succeeded =>
    intro client answer hanswer
    obtain ⟨k, hk⟩ := List.mem_iff_getElem?.mp (h.mem_of_done hanswer)
    exact ⟨_, h.won k client hk⟩
  case distinct => exact fun client client' id hwon hwon' => h.client_eq hn hwon hwon'
  case contiguous => exact ⟨_, h.length_le, h.exists_won_iff⟩
  case complete => exact hcomplete
  case unmutated =>
    intro hdone hpos
    obtain ⟨client, hwon⟩ := (hcomplete hdone candidate).mpr ⟨0, hpos, rfl⟩
    exact ⟨client, hwon, fun client' hwon' => h.client_eq hn hwon' hwon⟩

end

/-- What is promised of a race after some events: the identifiers that were won are the first
candidates, and who has had six turns for each attempt has won one. -/
structure Orderly (reserver : Reserver) (candidate : StoreId) (events : List (RaceEvent n))
    (race : Race σ n) : Prop where
  filled : race.Filled candidate
  ended : ∀ client, 6 * reserver.policy.maxAttempts.toNat
      ≤ events.countP (·.isTurnOf client) → ∃ id, race.Won client id

theorem orderly_run {b : σ} {m : MemoryStore} (hroom : GrantingBackend.Roomy b)
    (hmodels : SlotBackend.Models b m)
    (hfree : ∀ id, id.hash = candidate.hash → m.stores.get? id = none) (hn : n ≤ 65536)
    (hattempts : n ≤ reserver.policy.maxAttempts.toNat)
    (hlive : now < Lease.expiry now reserver.policy.ttl.millisWord) (events : List (RaceEvent n))
    (hclock : ∀ event ∈ events, event.around.clock reserver.clock = .still now) :
    ((start reserver candidate b).run reserver events).Orderly reserver candidate events := by
  obtain ⟨winners, h⟩ := (upheld_start hroom hmodels hfree hattempts hlive).run hn events hclock
  refine ⟨h.filled hn, fun client hturns => ?_⟩
  have hstart : EndsWithin ((start reserver candidate b : Race σ n).members client)
      (0 + events.countP (·.isTurnOf client)) :=
    (reserver.endsWithin_reserve candidate .never).mono (by omega)
  have hend := endsWithin_run reserver events _ client 0 hstart
  cases hmember : ((start reserver candidate b).run reserver events).members client with
  | done answer => exact (h.filled hn).succeeded client answer hmember
  | ask request next =>
    rw [hmember] at hend
    exact hend.elim

end Race

/-- Over either backend, clients that race for one candidate, of whose checksum no slot is taken,
win the first candidates in order, one each. -/
theorem reservations_fill_run (reserver : Reserver) (candidate : StoreId) (n : Nat) (now : UInt64)
    (hn : n ≤ 65536) (hattempts : n ≤ reserver.policy.maxAttempts.toNat)
    (hlive : now < Lease.expiry now reserver.policy.ttl.millisWord) (events : List (RaceEvent n))
    (hclock : ∀ event ∈ events, event.around.clock reserver.clock = .still now) :
    (∀ m : MemoryStore, (∀ id, id.hash = candidate.hash → m.stores.get? id = none) →
      ((Race.start reserver candidate m).run reserver events).Orderly reserver candidate
        events) ∧
    ∀ (config : ChunkedConfig) s deeds, ChunkedStore.create config = .ok s →
      (∀ id, id.hash = candidate.hash →
        ((Chronicle.start s).run deeds).backend.stores.find id = none) →
      ((Race.start reserver candidate ((Chronicle.start s).run deeds).backend).run reserver
        events).Orderly reserver candidate events := by
  refine ⟨fun m hfree => ?_, fun config s deeds hcreate hfree => ?_⟩
  · exact Race.orderly_run (m := m) trivial rfl hfree hn hattempts hlive events hclock
  · obtain ⟨⟨m, hm⟩, hbare⟩ := Chronicle.tells_inChunks hcreate deeds
    obtain ⟨husable, writer, hrep⟩ := hm.models
    refine Race.orderly_run ?_ hm.models (fun id hhash => ?_) hn hattempts hlive events hclock
    · intro id lease
      rw [ChunkedStore.stores_limit_of_bare hbare]
      exact ChunkedConfig.reservation_le (ChunkedStore.create_eq_ok_iff.mp hcreate).1 id lease
    · have hfind := hrep.stores id
      rw [hfree id hhash] at hfind
      exact Option.map_eq_none_iff.mp hfind.symm

/-- Two clients with two attempts each race for the last stamp.  The second one claims it while the
first has already looked at the clock, and commits; the first gets the stamp that comes after, which
is zero. -/
theorem reservations_fill_run_around_the_end :
    let reserver : Reserver := ⟨⟨.ofMillis 10, 2, .ofMicros 200, .ofMillis 20⟩, .manual⟩
    let candidate : StoreId := ⟨7, 65535⟩
    let blob : ContentRecord := .fresh candidate [1, 2, 3] "text/plain" 3
    let around : World Unit := {
      backend := (), manual := .still 5, system := .still 0, timer := 0, tokens := ⟨fun _ => 1, 0⟩,
      stamps := ⟨fun _ => 9, 0⟩, stampBytes := ⟨fun _ => 0, 0⟩, jitters := ⟨fun _ => 0, 0⟩,
      today := default }
    let events : List (RaceEvent 2) :=
      [.go 0 around, .go 0 around, .go 1 around, .go 1 around, .go 1 around, .go 1 around,
        .commit 1 blob (by decide) around] ++ List.replicate 10 (.go 0 around)
    let config : ChunkedConfig := ⟨2, 128, 1⟩
    let race : Race MemoryStore 2 := (Race.start reserver candidate .empty).run reserver events
    let chunked : Race ChunkedStore 2 :=
      (Race.start reserver candidate (.empty config)).run reserver events
    race.Orderly reserver candidate events ∧ race.Won 1 ⟨7, 65535⟩ ∧ race.Won 0 ⟨7, 0⟩ ∧
      ChunkedStore.create config = .ok (.empty config) ∧
      chunked.Orderly reserver candidate events ∧ chunked.Won 0 ⟨7, 0⟩ := by
  intro reserver candidate blob around events config race chunked
  have hlive : (5 : UInt64) < Lease.expiry 5 reserver.policy.ttl.millisWord := by decide +kernel
  have hclock : ∀ event ∈ events, event.around.clock reserver.clock = .still 5 := by
    intro event hevent
    simp only [events, List.mem_append, List.mem_cons, List.not_mem_nil, or_false,
      List.mem_replicate] at hevent
    rcases hevent with (rfl | rfl | rfl | rfl | rfl | rfl | rfl) | ⟨_, rfl⟩ <;> rfl
  have hcreate : ChunkedStore.create config = .ok (.empty config) := rfl
  obtain ⟨hmemory, hchunked⟩ := reservations_fill_run reserver candidate 2 5 (by decide) (by decide)
    hlive events hclock
  have hslots := hchunked config _ [] hcreate fun _ _ => rfl
  exact ⟨hmemory .empty fun _ _ => rfl, by decide +kernel, by decide +kernel, hcreate, hslots,
    by decide +kernel⟩

end ContentVault
