set_option autoImplicit false

/-!
# Calls that fail

A call fails with an error, which is its answer, or it panics: a sum in it is too large for its
type, and then nothing is answered.
-/

namespace ContentVault

/-- How a call fails. -/
inductive Failure (ε : Type) where
  | answered (error : ε)
  | panicked
  deriving DecidableEq, Repr, Inhabited

/-- The same failure with its error told in other words. -/
def Failure.map {ε δ : Type} (f : ε → δ) : Failure ε → Failure δ
  | .answered error => .answered (f error)
  | .panicked => .panicked

/-- The sum of two words, unless it is too large for a word. -/
def checkedAdd {ε : Type} (a b : UInt64) : Except (Failure ε) UInt64 :=
  if a.toNat + b.toNat < UInt64.size then .ok (a + b) else .error .panicked

section

variable {ε : Type} {a b : UInt64}

theorem checkedAdd_of_lt (h : a.toNat + b.toNat < UInt64.size) :
    (checkedAdd a b : Except (Failure ε) UInt64) = .ok (a + b) := if_pos h

theorem checkedAdd_of_le (h : UInt64.size ≤ a.toNat + b.toNat) :
    (checkedAdd a b : Except (Failure ε) UInt64) = .error .panicked := if_neg (Nat.not_lt.mpr h)

end

end ContentVault
