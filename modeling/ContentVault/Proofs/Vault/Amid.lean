import ContentVault.Proofs.Vault.Local
set_option autoImplicit false

/-!
# Procedures amid surroundings that change

A procedure may be carried out alone on a backend while everything else goes on: at each request
the clocks, the timer, the tokens and the stamps are those of that moment.  What it then ensures is
said by recursion on the tree of its requests.
-/

namespace ContentVault

variable {σ α β : Type} [Backend σ]

/-- Carries a procedure out on a backend; the request number `n` is answered amid `around n`. -/
def amid (around : Nat → World Unit) (p : Procedure α) (b : σ) : α × σ :=
  let out := p.runAmid World.answer (fun n w => (around n).withBackend w.backend) 0
    ((around 0).withBackend b)
  (out.1, out.2.backend)

/-- A request is answered at its moment, and what follows begins at the next. -/
theorem runAmid_ask {around : Nat → World Unit} (request : Request α) (f : α → Procedure β)
    (n : Nat) (w : World σ) :
    (ask request >>= f).runAmid World.answer (fun n w => (around n).withBackend w.backend) n w
      = (f (World.answer request ((around n).withBackend w.backend)).1).runAmid World.answer
          (fun n w => (around n).withBackend w.backend) (n + 1)
          (World.answer request ((around n).withBackend w.backend)).2 := rfl

/-- Amid whatever surroundings of a kind each request is answered, the procedure ends as `post`
says. -/
def Ensures (kind : World Unit → Prop) (post : α → σ → Prop) : Procedure α → σ → Prop
  | .done a, b => post a b
  | .ask request next, b => ∀ around, kind around →
    Ensures kind post (next (World.answer request (around.withBackend b)).1)
      (World.answer request (around.withBackend b)).2.backend

namespace Ensures

variable {kind : World Unit → Prop} {post post' : α → σ → Prop} {p : Procedure α} {b : σ}

theorem runAmid (h : Ensures kind post p b) {around : Nat → World Unit}
    (hkind : ∀ n, kind (around n)) (n : Nat) (w : World σ) (hw : w.backend = b) :
    let out := p.runAmid World.answer (fun n w => (around n).withBackend w.backend) n w
    post out.1 out.2.backend := by
  induction p generalizing n w b with
  | done a =>
    subst hw
    exact h
  | ask request next ih =>
    subst hw
    exact ih _ (h (around n) (hkind n)) (n + 1) _ rfl

/-- What is ensured amid surroundings of a kind holds of each run amid such. -/
theorem amid (h : Ensures kind post p b) {around : Nat → World Unit}
    (hkind : ∀ n, kind (around n)) :
    post (amid around p b).1 (ContentVault.amid around p b).2 :=
  h.runAmid hkind 0 _ rfl

theorem weaken (h : Ensures kind post p b) (himp : ∀ a b', post a b' → post' a b') :
    Ensures kind post' p b := by
  induction p generalizing b with
  | done a => exact himp a b h
  | ask request next ih => exact fun around hkind => ih _ (h around hkind)

theorem bind {post' : β → σ → Prop} {f : α → Procedure β}
    (h : Ensures kind (fun a b' => Ensures kind post' (f a) b') p b) :
    Ensures kind post' (p >>= f) b := by
  induction p generalizing b with
  | done a => exact h
  | ask request next ih => exact fun around hkind => ih _ (h around hkind)

/-- A local request is answered and leaves the backend as it is. -/
theorem ask_local {request : Request α} (hlocal : request.IsLocal)
    (h : ∀ around : World Unit, kind around →
      post (World.answer request (around.withBackend b)).1 b) :
    Ensures kind post (ask request) b := by
  intro around hkind
  rw [(World.answer_withBackend hlocal (around.withBackend b) b).2]
  exact h around hkind

end Ensures

/-- A procedure that keeps to local requests leaves the backend as it is. -/
theorem IsLocal.ensures {p : Procedure α} (hp : IsLocal p) (kind : World Unit → Prop) (b : σ) :
    Ensures kind (fun _ b' => b' = b) p b := by
  induction p with
  | done a => rfl
  | ask request next ih =>
    intro around _
    rw [(World.answer_withBackend hp.1 (around.withBackend b) b).2]
    exact ih _ (hp.2 _)

end ContentVault
