import ContentVault.Proofs.Vault.Local
import Mathlib.Logic.Function.Basic
set_option autoImplicit false

/-!
# Procedures side by side

The members of a crowd are procedures under way over one backend.  In each step the next request
of one member is answered, or the member waits for a lock.  Clocks, timer, tokens and stamps are
those of the step's surroundings, so they may be anything at every step; the backend and the locks
that are taken are shared by all.
-/

namespace ContentVault

/-- Procedures under way over one backend, and the stripes whose locks are taken. -/
structure Crowd (σ ι α : Type) where
  backend : σ
  locked : List Nat
  members : ι → Procedure α

namespace Crowd

variable {σ ι α : Type}

/-- Every member is about to begin. -/
def start (backend : σ) (members : ι → Procedure α) : Crowd σ ι α := ⟨backend, [], members⟩

/-- The world in which a request is answered, amid the given surroundings. -/
def world (c : Crowd σ ι α) (around : World Unit) : World σ :=
  { around.withBackend c.backend with locked := c.locked }

@[simp] theorem backend_world (c : Crowd σ ι α) (around : World Unit) :
    (c.world around).backend = c.backend := rfl

@[simp] theorem locked_world (c : Crowd σ ι α) (around : World Unit) :
    (c.world around).locked = c.locked := rfl

/-- The answer of a member that is finished. -/
def answer? (c : Crowd σ ι α) (i : ι) : Option α :=
  match c.members i with
  | .done a => some a
  | .ask _ _ => none

theorem answer?_eq_some_iff (c : Crowd σ ι α) (i : ι) (a : α) :
    c.answer? i = some a ↔ c.members i = .done a := by
  rw [answer?]
  cases c.members i with
  | done b => simp
  | ask request next => simp

variable [DecidableEq ι]

/-- The crowd when a member goes on with the answer to its request. -/
def answered {β : Type} (c : Crowd σ ι α) (i : ι) (next : β → Procedure α)
    (out : β × World σ) : Crowd σ ι α :=
  ⟨out.2.backend, out.2.locked, Function.update c.members i (next out.1)⟩

section

variable {β : Type} (c : Crowd σ ι α) (i : ι) (next : β → Procedure α) (out : β × World σ)

@[simp] theorem backend_answered : (c.answered i next out).backend = out.2.backend := rfl

@[simp] theorem locked_answered : (c.answered i next out).locked = out.2.locked := rfl

@[simp] theorem members_answered_self : (c.answered i next out).members i = next out.1 :=
  Function.update_self i _ _

theorem members_answered_of_ne {j : ι} (h : j ≠ i) :
    (c.answered i next out).members j = c.members j := Function.update_of_ne h _ _

end

variable [Backend σ]

/-- Answers the next request of a member, unless it has to wait or is finished. -/
def step (c : Crowd σ ι α) (i : ι) (around : World Unit) : Crowd σ ι α :=
  match c.members i with
  | .done _ => c
  | .ask request next =>
    if (c.world around).blocks request then c
    else c.answered i next (World.answer request (c.world around))

/-- Answers requests one after the other, each of the named member in the given surroundings. -/
def run (c : Crowd σ ι α) (steps : List (ι × World Unit)) : Crowd σ ι α :=
  steps.foldl (fun c next => c.step next.1 next.2) c

theorem step_of_done {c : Crowd σ ι α} {i : ι} {a : α} (h : c.members i = .done a)
    (around : World Unit) : c.step i around = c := by
  rw [step, h]

theorem step_of_ask {c : Crowd σ ι α} {i : ι} {β : Type} {request : Request β}
    {next : β → Procedure α} (h : c.members i = .ask request next) {around : World Unit}
    (hfree : (c.world around).blocks request = false) :
    c.step i around = c.answered i next (World.answer request (c.world around)) := by
  rw [step, h]
  exact if_neg (Bool.eq_false_iff.mp hfree)

/-- A step leaves the crowd as it is, or answers a request that does not wait. -/
theorem step_cases (c : Crowd σ ι α) (i : ι) (around : World Unit) :
    c.step i around = c ∨ ∃ (β : Type) (request : Request β) (next : β → Procedure α),
      c.members i = .ask request next ∧ (c.world around).blocks request = false ∧
        c.step i around = c.answered i next (World.answer request (c.world around)) := by
  cases hmember : c.members i with
  | done a => exact Or.inl (step_of_done hmember around)
  | ask request next =>
    cases hblocks : (c.world around).blocks request with
    | true =>
      left
      rw [step, hmember]
      exact if_pos hblocks
    | false => exact Or.inr ⟨_, request, next, rfl, hblocks, step_of_ask hmember hblocks⟩

end Crowd

/-! ## Requests that nobody else notices -/

/-- The request may have to wait for others. -/
def Request.waits {α : Type} : Request α → Bool
  | .enter _ => true
  | _ => false

/-- The request takes a lock or gives one back. -/
def Request.locks {α : Type} : Request α → Bool
  | .enter _ | .leave _ => true
  | _ => false

section

variable {σ α : Type}

theorem World.blocks_eq_false {request : Request α} (h : request.waits = false) (w : World σ) :
    w.blocks request = false := by
  cases request with
  | enter stripe => cases h
  | _ => rfl

variable [Backend σ]

/-- A local request leaves the backend as it is. -/
theorem World.backend_answer {request : Request α} (h : request.IsLocal) (w : World σ) :
    (World.answer request w).2.backend = w.backend :=
  (World.answer_withBackend h w w.backend).2

/-- Only requests for locks change which locks are taken. -/
theorem World.locked_answer {request : Request α} (h : request.locks = false) (w : World σ) :
    (World.answer request w).2.locked = w.locked := by
  cases request with
  | enter stripe => cases h
  | leave stripe => cases h
  | readClock kind => cases kind <;> rfl
  | commitStore kind r record => cases kind <;> rfl
  | commitFile kind r record => cases kind <;> rfl
  | _ => rfl

end

/-! ## Procedures that end -/

/-- Whatever it is answered, the procedure ends within a number of requests, none of which waits. -/
def EndsWithin {α : Type} : Procedure α → Nat → Prop
  | .done _, _ => True
  | .ask _ _, 0 => False
  | .ask request next, n + 1 => request.waits = false ∧ ∀ b, EndsWithin (next b) n

namespace EndsWithin

variable {α β : Type}

theorem mono {p : Procedure α} {m n : Nat} (h : EndsWithin p m) (hmn : m ≤ n) :
    EndsWithin p n := by
  induction p generalizing m n with
  | done a => trivial
  | ask request next ih =>
    cases m with
    | zero => exact h.elim
    | succ m =>
      cases n with
      | zero => omega
      | succ n => exact ⟨h.1, fun b => ih b (h.2 b) (by omega)⟩

theorem bind {p : Procedure α} {f : α → Procedure β} {m n : Nat} (hp : EndsWithin p m)
    (hf : ∀ a, EndsWithin (f a) n) : EndsWithin (p >>= f) (m + n) := by
  induction p generalizing m with
  | done a => exact (hf a).mono (Nat.le_add_left n m)
  | ask request next ih =>
    cases m with
    | zero => exact hp.elim
    | succ m =>
      rw [Nat.succ_add]
      exact ⟨hp.1, fun b => ih b (hp.2 b)⟩

theorem ask {request : Request α} (h : request.waits = false) :
    EndsWithin (ContentVault.ask request) 1 := ⟨h, fun _ => trivial⟩

end EndsWithin

namespace Crowd

variable {σ ι α : Type} [DecidableEq ι] [Backend σ]

/-- Each turn brings a member nearer to its end. -/
theorem endsWithin_step {c : Crowd σ ι α} {i : ι} {n : Nat} (h : EndsWithin (c.members i) (n + 1))
    (around : World Unit) : EndsWithin ((c.step i around).members i) n := by
  cases hmember : c.members i with
  | done a =>
    rw [step_of_done hmember, hmember]
    trivial
  | ask request next =>
    rw [hmember] at h
    rw [step_of_ask hmember (World.blocks_eq_false h.1 _), members_answered_self]
    exact h.2 _

/-- A step of one member leaves the others where they are. -/
theorem members_step_of_ne (c : Crowd σ ι α) {i j : ι} (h : j ≠ i) (around : World Unit) :
    (c.step i around).members j = c.members j := by
  rcases c.step_cases i around with hsame | ⟨_, _, next, _, _, hstep⟩
  · rw [hsame]
  · rw [hstep, members_answered_of_ne _ _ _ _ h]

end Crowd

end ContentVault
