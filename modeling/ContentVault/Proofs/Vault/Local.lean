import ContentVault.Vault.Request
set_option autoImplicit false

/-!
# Procedures that leave the backend alone

Looking at clocks, drawing tokens and stamps, pausing and locking have nothing to do with
the backend: over any backend they come to the same.
-/

namespace ContentVault

namespace World

variable {σ τ α β : Type}

/-- The same surroundings over another backend. -/
def withBackend (w : World σ) (backend : τ) : World τ := { w with backend }

@[simp] theorem backend_withBackend (w : World σ) (b : τ) : (w.withBackend b).backend = b := rfl

@[simp] theorem withBackend_backend (w : World σ) : w.withBackend w.backend = w := rfl

@[simp] theorem withBackend_withBackend {υ : Type} (w : World σ) (b : τ) (c : υ) :
    (w.withBackend b).withBackend c = w.withBackend c := rfl

/-- An action that looks at a clock leaves the backend that it ends with. -/
theorem onClocked_eq {w : World σ} {kind : ClockKind} {action : Atomic (Clocked σ) α} {a : α}
    {b : σ} {clock : Clock} (h : action ⟨w.backend, w.clock kind⟩ = (a, ⟨b, clock⟩)) :
    (w.onClocked kind action).1 = a ∧ (w.onClocked kind action).2.backend = b := by
  rw [onClocked, h]
  refine ⟨rfl, ?_⟩
  cases kind <;> rfl

variable [Backend σ] (w : World σ)

/-- A commit is that of the backend under the clock of the moment. -/
theorem answer_commitStore (kind : ClockKind) (r : Reservation StoreId) (record : ContentRecord) :
    (answer (.commitStore kind r record) w).1
        = (Backend.commitStore r record ⟨w.backend, w.clock kind⟩).1 ∧
      (answer (.commitStore kind r record) w).2.backend
        = (Backend.commitStore r record ⟨w.backend, w.clock kind⟩).2.state := by
  cases kind <;> exact ⟨rfl, rfl⟩

theorem run_bind (p : Procedure α) (f : α → Procedure β) :
    w.run (p >>= f) = (w.run p).2.run (f (w.run p).1) := Program.run_bind _ p f w

end World

/-- The request does not go to the backend. -/
def Request.IsLocal : {α : Type} → Request α → Prop
  | _, .readClock _ | _, .readTimer | _, .pause _ | _, .jitter .. | _, .leaseToken
  | _, .seedStamp | _, .stampByte | _, .today | _, .enter _ | _, .leave _ => True
  | _, _ => False

/-- Whatever it is answered, the procedure puts requests of a kind only. -/
def Asks (P : {α : Type} → Request α → Prop) {α : Type} : Procedure α → Prop
  | .done _ => True
  | .ask r next => P r ∧ ∀ b, Asks P (next b)

section

variable {α β : Type}

namespace Asks

variable {P Q : {α : Type} → Request α → Prop}

theorem bind {p : Procedure α} {f : α → Procedure β} (hp : Asks P p) (hf : ∀ a, Asks P (f a)) :
    Asks P (p >>= f) := by
  induction p with
  | done a => exact hf a
  | ask r next ih => exact ⟨hp.1, fun b => ih b (hp.2 b)⟩

theorem imp {p : Procedure α} (hp : Asks P p)
    (himp : ∀ {β : Type} {r : Request β}, P r → Q r) : Asks Q p := by
  induction p with
  | done a => trivial
  | ask r next ih => exact ⟨himp hp.1, fun b => ih b (hp.2 b)⟩

end Asks

theorem asks_ask {P : {α : Type} → Request α → Prop} {r : Request α} (hr : P r) :
    Asks P (ask r) := ⟨hr, fun _ => trivial⟩

/-- No request of the procedure goes to the backend. -/
abbrev IsLocal (p : Procedure α) : Prop := Asks Request.IsLocal p

theorem isLocal_ask {r : Request α} (hr : r.IsLocal) : IsLocal (ask r) := asks_ask hr

variable {σ τ : Type} [Backend σ] [Backend τ]

theorem World.answer_withBackend {r : Request α} (hr : r.IsLocal) (w : World σ) (b : τ) :
    World.answer r (w.withBackend b) = ((World.answer r w).1, (World.answer r w).2.withBackend b) ∧
      (World.answer r w).2.backend = w.backend := by
  cases r with
  | readClock kind => cases kind <;> exact ⟨rfl, rfl⟩
  | readTimer => exact ⟨rfl, rfl⟩
  | pause span => exact ⟨rfl, rfl⟩
  | jitter low high => exact ⟨rfl, rfl⟩
  | leaseToken => exact ⟨rfl, rfl⟩
  | seedStamp => exact ⟨rfl, rfl⟩
  | stampByte => exact ⟨rfl, rfl⟩
  | today => exact ⟨rfl, rfl⟩
  | enter stripe => exact ⟨rfl, rfl⟩
  | leave stripe => exact ⟨rfl, rfl⟩
  | _ => exact hr.elim

/-- Over any backend a local procedure does the same, and leaves the backend as it was. -/
theorem IsLocal.run_withBackend {p : Procedure α} (hp : IsLocal p) (w : World σ) (b : τ) :
    (w.withBackend b).run p = ((w.run p).1, (w.run p).2.withBackend b) := by
  induction p generalizing w with
  | done a => rfl
  | ask r next ih =>
    have hrun : ∀ {υ : Type} [Backend υ] (v : World υ),
        v.run (.ask r next) = (World.answer r v).2.run (next (World.answer r v).1) :=
      fun _ => rfl
    rw [hrun, hrun, (World.answer_withBackend hp.1 w b).1]
    exact ih _ (hp.2 _) _

theorem IsLocal.backend_run {p : Procedure α} (hp : IsLocal p) (w : World σ) :
    (w.run p).2.backend = w.backend := by
  induction p generalizing w with
  | done a => rfl
  | ask r next ih =>
    have hrun : w.run (.ask r next) = (World.answer r w).2.run (next (World.answer r w).1) := rfl
    rw [hrun, ih _ (hp.2 _), (World.answer_withBackend hp.1 w w.backend).2]

end

theorem isLocal_passed (deadline : Deadline) : IsLocal deadline.passed :=
  (isLocal_ask (r := .readTimer) trivial).bind fun _ => trivial

end ContentVault
