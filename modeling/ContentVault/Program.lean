set_option autoImplicit false

/-!
# Programs that put requests to their surroundings

A client's work is a tree: it is finished, or it puts one request and goes on with the
answer.  Each request is answered in one indivisible step, so running a program alone,
running it while others meddle between its steps, and running several side by side
are all readings of the same tree.
-/

namespace ContentVault

universe u

/-- A program over the requests `F`: it is finished, or it asks and goes on. -/
inductive Program (F : Type → Type) (α : Type) : Type 1 where
  | done (value : α)
  | ask {β : Type} (request : F β) (next : β → Program F α)

/-- How requests are answered on a state. -/
abbrev Answers (F : Type → Type) (σ : Type) := {β : Type} → F β → σ → β × σ

/-- One indivisible action on a state. -/
abbrev Atomic (σ β : Type) : Type := σ → β × σ

namespace Program

variable {F : Type → Type} {α β σ : Type}

/-- Goes on with another program when the first is finished. -/
def bind (p : Program F α) (f : α → Program F β) : Program F β :=
  match p with
  | .done a => f a
  | .ask request next => .ask request fun b => (next b).bind f

instance : Monad (Program F) where
  pure := .done
  bind := .bind

/-- The program that puts one request. -/
def request (r : F α) : Program F α := .ask r .done

@[simp] theorem done_bind (a : α) (f : α → Program F β) : (done a).bind f = f a := rfl

@[simp] theorem ask_bind {γ : Type} (r : F γ) (next : γ → Program F α) (f : α → Program F β) :
    (ask r next).bind f = .ask r fun c => (next c).bind f := rfl

/-! ## Running -/

/-- Runs a program alone. -/
def run (answer : Answers F σ) : Program F α → σ → α × σ
  | .done a, s => (a, s)
  | .ask r next, s =>
    let (b, s) := answer r s
    run answer (next b) s

/-- Runs a program while `meddle n` changes the state before the request number `n`. -/
def runAmid (answer : Answers F σ) (meddle : Nat → σ → σ) : Nat → Program F α → σ → α × σ
  | _, .done a, s => (a, s)
  | n, .ask r next, s =>
    let (b, s) := answer r (meddle n s)
    runAmid answer meddle (n + 1) (next b) s

/-- An indivisible action answers itself. -/
def perform : Answers (Atomic σ) σ := fun action s => action s

theorem run_bind (answer : Answers F σ) (p : Program F α) (f : α → Program F β) (s : σ) :
    run answer (p.bind f) s = run answer (f (run answer p s).1) (run answer p s).2 := by
  induction p generalizing s with
  | done a => rfl
  | ask r next ih => simp only [ask_bind, run, ih]

end Program

end ContentVault
