import ContentVault.Proofs.History.Commits
set_option autoImplicit false

/-!
# Failed commits and second attempts

A commit in chunks may fail before anything is written, while chunks are written, or when the
record is to be marked and the lease has lapsed meanwhile.  In each case the store is afterwards
what it was, so whoever holds a live lease may commit again anything that fits.
-/

namespace ContentVault

namespace Chronicle

open ChunkedStore (Shows commit)

variable {config : ChunkedConfig} {c : Chronicle ChunkedStore} {m : MemoryStore}

/-- A record that fits is taken from whoever is entitled at both looks at the clock. -/
theorem Tells.commit_of_fits (h : Tells .empty c m) (hbare : c.backend.bare = .empty config)
    (r : Reservation StoreId) (record : ContentRecord) (schedule : List Nat) (clock : Clock)
    (hid : record.id = r.id) (hlength : record.content.length < UInt64.size)
    (hfits : config.Fits record)
    (hentitled : ∀ now, Shows clock now →
      Event.Entitles (c.blobEvents r.id) r.lease.token now) :
    ∃ after clock', (commit config schedule r record).alone ⟨c.backend, clock⟩
        = (.ok (), ⟨after, clock'⟩) ∧
      ChunkedStore.Takes c.backend m r record after :=
  ChunkedStore.commit_of_fits h.models hbare schedule clock hid hlength hfits
    fun now hshows => (SlotMap.holds_iff (h.blobs r.id) now).mpr (hentitled now hshows)

end Chronicle

open Chronicle (start)
open ChunkedStore (Shows commit)

/-- After any deeds, a commit that fails leaves the store as it was, whatever was committed under
whatever reservation, however the lanes took turns and whatever the clock showed.  Whoever holds a
live lease may then commit a record that fits, and reads back exactly that. -/
theorem failed_commit_atomic {config : ChunkedConfig} {created : ChunkedStore}
    (hcreate : ChunkedStore.create config = .ok created) (deeds : List ((α : Type) × Deed α))
    (r : Reservation StoreId) (record : ContentRecord)
    (hlength : record.content.length < UInt64.size) (schedule : List Nat) (clock : Clock) :
    let c := (start created).run deeds
    let out := (commit config schedule r record).alone ⟨c.backend, clock⟩
    out.1.isOk = false →
      out.2.state = c.backend ∧
      ∀ (live : Reservation StoreId) (smaller : ContentRecord) (schedule' : List Nat)
        (clock' : Clock), smaller.id = live.id → smaller.content.length < UInt64.size →
        config.Fits smaller →
        (∀ now, Shows clock' now →
          Event.Entitles (c.blobEvents live.id) live.lease.token now) →
        let again := (commit config schedule' live smaller).alone ⟨out.2.state, clock'⟩
        again.1 = .ok () ∧ (Backend.getStore live.id again.2.state).1 = .ok (some smaller) := by
  intro c out hfailed
  obtain ⟨⟨m, hm⟩, hbare⟩ :
      (∃ m, Chronicle.Tells .empty c m) ∧ c.backend.bare = .empty config :=
    Chronicle.tells_inChunks hcreate deeds
  have hconfig := ChunkedStore.config_eq_of_bare hbare
  have hsame : out.2.state = c.backend := by
    have hunchanged :
        ((commit c.backend.config schedule r record).alone.under clock c.backend).1.isOk = false →
          ((commit c.backend.config schedule r record).alone.under clock c.backend).2 = c.backend :=
      ChunkedStore.commit_unchanged hm.models hlength
    rw [hconfig] at hunchanged
    exact hunchanged hfailed
  refine ⟨hsame, fun live smaller schedule' clock' hid hlength' hfits hentitled => ?_⟩
  obtain ⟨after, clock'', hcommit, htakes⟩ :=
    hm.commit_of_fits hbare live smaller schedule' clock' hid hlength' hfits hentitled
  rw [hsame]
  simp only [hcommit, true_and]
  rw [SlotBackend.getStore (show SlotBackend.Models after _ from htakes.models),
    SlotMap.record?_insert, if_pos rfl]
  rfl

/-- Three chunks are written before the document turns out to be too large for its content type;
they are taken away again, and under the same lease a shorter record is committed. -/
theorem failed_commit_atomic_of_long_type :
    let config : ChunkedConfig := ⟨2, 128, 2⟩
    let r : Reservation StoreId := ⟨⟨7, 0⟩, ⟨1, 100⟩⟩
    let long : ContentRecord :=
      .fresh r.id [1, 2, 3, 4, 5] (String.ofList (List.replicate 100 'x')) 5
    let short : ContentRecord := .fresh r.id [6, 7, 8] "text/plain" 3
    let deeds : List ((α : Type) × Deed α) := [⟨_, .standing (.claimStore r.id r.lease 5)⟩]
    let s := ((start (ChunkedStore.empty config)).run deeds).backend
    let out := (commit config [1] r long).alone ⟨s, ⟨10, [20]⟩⟩
    let again := (commit config [] r short).alone ⟨out.2.state, ⟨30, [40]⟩⟩
    out.1 = .error (.recordTooLarge "stores" 163 128) ∧ out.2.state = s ∧
      again.1 = .ok () ∧ (Backend.getStore r.id again.2.state).1 = .ok (some short) := by
  intro config r long short deeds s out again
  have hcreate : ChunkedStore.create config = .ok (.empty config) := rfl
  have hlarge : out.1 = .error (.recordTooLarge "stores" 163 128) := by decide +kernel
  have hevents : ((start (ChunkedStore.empty config)).run deeds).blobEvents r.id
      = [.claimed ⟨1, 100⟩] := by
    decide +kernel
  have hentitled : ∀ now, Shows ⟨30, [40]⟩ now → Event.Entitles
      (((start (ChunkedStore.empty config)).run deeds).blobEvents r.id) r.lease.token now := by
    intro now hshows
    refine ⟨⟨1, 100⟩, ⟨[], [], hevents, fun event hevent => (List.not_mem_nil hevent).elim⟩, rfl,
      ?_⟩
    rcases hshows with rfl | rfl <;> decide
  obtain ⟨hsame, hretry⟩ := failed_commit_atomic hcreate deeds r long (by decide) [1] ⟨10, [20]⟩
    (by rw [show _ = _ from hlarge]; rfl)
  exact ⟨hlarge, hsame, hretry r short [] ⟨30, [40]⟩ rfl (by decide) (by decide) hentitled⟩

end ContentVault
