import ContentVault.Proofs.Interleaving.Calls
import Mathlib.Data.List.Perm.Basic
set_option autoImplicit false

/-!
# One winner for every identifier

However the steps of clients fall between each other, at most one commit of an identifier
succeeds, and whatever is read under the identifier is a copy of the payload of that commit.
The invariant says of a system that its view is sound for some authors, that every call under
way is safe, and that drafts which are not committed belong to a commit under way.
-/

namespace ContentVault.Interleaving

/-- The parties do not write chunks for one owner. -/
def Apart (p q : Party) : Prop :=
  ∀ owner, p.call.owner? = some owner → q.call.owner? ≠ some owner

theorem Apart.symm {p q : Party} (h : Apart p q) : Apart q p :=
  fun owner hq hp => h owner hp hq

/-- The call is safe from here on. -/
def Party.Safe (p : Party) (x : View) : Prop :=
  Interleaving.Safe p.call.owner? (Ended p.call) (.ask p.request p.next) x

namespace System

/-- What is seen of a system, with the authors. -/
def view (s : System) (author : Owner → Option Draft) : View := ⟨s.store, s.history, author⟩

/-- Somebody is about to write chunks for the owner. -/
def Drives (s : System) (owner : Owner) : Prop :=
  ∃ p ∈ s.parties, p.call.owner? = some owner

/-- The invariant of clients side by side. -/
structure Upheld (s : System) (author : Owner → Option Draft) : Prop where
  sound : Sound (s.view author)
  safe : ∀ p ∈ s.parties, p.Safe (s.view author)
  apart : s.parties.Pairwise Apart
  settled : ∀ owner, Settled owner (s.view author) ∨ s.Drives owner

theorem upheld_initial (config : ChunkedConfig) : (initial config).Upheld fun _ => none := by
  refine ⟨⟨?_, ?_, ?_, ?_⟩, ?_, .nil, ?_⟩
  · intro key doc hdoc
    cases hdoc
  · intro id m hm
    cases hm
  · intro id _
    rfl
  · intro o ho
    cases ho
  · intro p hp
    cases hp
  · intro owner
    exact Or.inl (Or.inl rfl)

/-- A call may be put down, finished or not, if the others can rely on what it did. -/
theorem Upheld.settle {s : System} {author : Owner → Option Draft} {α : Type} {call : Call α}
    {p : ChunkedStore.Client α}
    (hsafe : Safe call.owner? (Ended call) p (s.view author))
    (hothers : ∀ q ∈ s.parties, ∃ x, q.Safe x ∧ Rely q.call.owner? x (s.view author))
    (hapart : s.parties.Pairwise Apart)
    (hown : ∀ q ∈ s.parties, ∀ owner, call.owner? = some owner → q.call.owner? ≠ some owner)
    (hsettled : ∀ owner, call.owner? ≠ some owner →
      Settled owner (s.view author) ∨ s.Drives owner) :
    (s.settle call p).Upheld author := by
  cases p with
  | done answer =>
    refine ⟨hsafe.sound, fun q hq => ?_, hapart, fun owner => ?_⟩
    · obtain ⟨x, hx, hrely⟩ := hothers q hq
      exact hx.rely hsafe.sound (hrely.trans (Rely.log _ _ _))
    · by_cases howner : call.owner? = some owner
      · exact Or.inl (hsafe.settled owner howner)
      · exact hsettled owner howner
  | ask request next =>
    refine ⟨hsafe.1, fun q hq => ?_, List.pairwise_cons.mpr ⟨hown, hapart⟩, fun owner => ?_⟩
    · rcases List.mem_cons.mp hq with rfl | hq
      · exact hsafe
      · obtain ⟨x, hx, hrely⟩ := hothers q hq
        exact hx.rely hsafe.1 hrely
    · by_cases howner : call.owner? = some owner
      · exact Or.inr ⟨_, List.mem_cons_self, howner⟩
      · rcases hsettled owner howner with h | ⟨q, hq, h⟩
        · exact Or.inl h
        · exact Or.inr ⟨q, List.mem_cons_of_mem _ hq, h⟩

theorem Upheld.start {s : System} {author : Owner → Option Draft} (h : s.Upheld author) {α : Type}
    (call : Call α) : (s.start call).Upheld author := by
  rw [System.start]
  split
  next hfree =>
    have hown : ∀ q ∈ s.parties, ∀ owner, call.owner? = some owner →
        q.call.owner? ≠ some owner := by
      intro q hq owner howner
      rw [howner, Option.all_some, isFree, List.all_eq_true] at hfree
      exact bne_iff_ne.mp (hfree q hq)
    refine Upheld.settle (call.safe s.store.config h.sound fun owner howner => ?_)
      (fun q hq => ⟨_, h.safe q hq, .refl _ _⟩) h.apart hown fun owner _ => h.settled owner
    rcases h.settled owner with hsettled | ⟨q, hq, hdrives⟩
    · exact hsettled
    · exact absurd hdrives (hown q hq owner howner)
  · exact h

theorem Upheld.step {s : System} {author : Owner → Option Draft} (h : s.Upheld author) (i : Nat)
    (clock : Clock) : ∃ author, (s.step i clock).Upheld author := by
  rw [System.step]
  split
  · exact ⟨author, h⟩
  next p hp =>
    obtain ⟨hi, rfl⟩ := List.getElem?_eq_some_iff.mp hp
    have hperm := List.getElem_cons_eraseIdx_perm hi
    have hapart := List.pairwise_cons.mp ((hperm.pairwise_iff Apart.symm).mpr h.apart)
    obtain ⟨author', hguarantee, hsafe⟩ :=
      (h.safe _ (List.getElem_mem hi)).2 _ h.sound (.refl _ _) clock
    refine ⟨author', Upheld.settle hsafe (fun q hq => ⟨s.view author, ?_, ?_⟩) hapart.2 hapart.1
      fun owner howner => ?_⟩
    · exact h.safe q (List.mem_of_mem_eraseIdx hq)
    · exact hguarantee.rely (hapart.1 q hq).symm
    · rcases h.settled owner with (hnone | hcommitted) | ⟨q, hq, hdrives⟩
      · exact Or.inl (Or.inl ((hguarantee.spares owner howner).author_eq.trans hnone))
      · exact Or.inl (Or.inr (hguarantee.grows.committedBy hcommitted))
      · rcases List.mem_cons.mp (hperm.mem_iff.mpr hq) with rfl | hq
        · exact absurd hdrives howner
        · exact Or.inr ⟨q, hq, hdrives⟩

theorem exists_upheld (config : ChunkedConfig) (actions : List Action) :
    ∃ author, (reached config actions).Upheld author := by
  refine run_induct (P := fun s => ∃ author, s.Upheld author) ?_ ⟨_, upheld_initial config⟩ actions
  rintro s action ⟨author, h⟩
  cases action with
  | start call => exact ⟨author, h.start call⟩
  | step i clock => exact h.step i clock

end System

/-- In every run, at most one commit of an identifier succeeds, and what is read under the
identifier is a copy of its payload. -/
theorem read_copies_single_winner (config : ChunkedConfig) (actions : List Action) :
    let history := (System.reached config actions).history
    (∀ id, (winners id history).length ≤ 1) ∧
    (∀ id record, ⟨.getStore id, .ok (some record)⟩ ∈ history →
      record.id = id ∧ ∃ payload, winners id history = [payload] ∧ IsCopy record payload) ∧
    (∀ hash records record, ⟨.matchHash hash, .ok records⟩ ∈ history → record ∈ records →
      record.id.hash = hash ∧
        ∃ payload, winners record.id history = [payload] ∧ IsCopy record payload) := by
  obtain ⟨author, h⟩ := System.exists_upheld config actions
  refine ⟨h.sound.winners_length_le, fun id record hread => ?_,
    fun hash records record hread hrecord => ?_⟩
  · obtain ⟨rfl, hwinner⟩ := h.sound.genuine _ hread record (List.mem_singleton.mpr rfl)
    exact ⟨rfl, hwinner⟩
  · exact h.sound.genuine _ hread record hrecord

/-- A copy is all that is promised, not that there is one: the chunks of a committed blob are gone
when an earlier claim, whose lease has lapsed since, is late to purge. -/
theorem exists_winner_without_chunks :
    ∃ (config : ChunkedConfig) (actions : List Action) (id : StoreId) (payload : ContentRecord),
      let s := System.reached config actions
      config.validate = .ok () ∧ winners id s.history = [payload] ∧ payload.content ≠ [] ∧
        s.store.chunkCount = 0 ∧
        ((ChunkedStore.getStore id).unclocked s.store).1
          = .error (.corruptData "070000000000: expected 1 chunks, found 0") := by
  let id : StoreId := ⟨7, 0⟩
  let payload : ContentRecord := .fresh id [1] "text/plain" 1
  let step (now : UInt64) : Action := .step 0 (.still now)
  let late : List Action := [.start (.claim id ⟨1, 10⟩ 5), step 5]
  let winner : List Action :=
    [.start (.claim id ⟨2, 100⟩ 20), step 20, step 20,
      .start (.commit 1 [] ⟨id, ⟨2, 100⟩⟩ payload), step 21, step 21, step 21, step 21]
  refine ⟨⟨1, 128, 1⟩, late ++ winner ++ [step 22], id, payload, ?_⟩
  decide +kernel

end ContentVault.Interleaving
