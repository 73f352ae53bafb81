set_option autoImplicit false

/-!
# Decimal numerals

The digits of a natural number without leading zeros, and the number that a
string of digits stands for.  Reading undoes writing.
-/

namespace ContentVault.Decimal

/-- The digit of a number below ten. -/
def digit (n : Nat) : Char := Char.ofNat (48 + n)

/-- The number a digit stands for. -/
def digitValue (c : Char) : Nat := c.toNat - 48

/-- The digits of `n`, highest first. -/
def digits (n : Nat) : List Char :=
  if n < 10 then [digit n] else digits (n / 10) ++ [digit (n % 10)]
  termination_by n
  decreasing_by omega

/-- The number that a string of digits stands for in base `base`. -/
def valueIn (base : Nat) (cs : List Char) : Nat :=
  cs.foldl (fun n c => base * n + digitValue c) 0

/-- The number that a string of decimal digits stands for. -/
def value (cs : List Char) : Nat := valueIn 10 cs

/-- The numeral of `n`. -/
def text (n : Nat) : String := String.ofList (digits n)

theorem digitValue_digit {n : Nat} (h : n < 10) : digitValue (digit n) = n := by
  have : ∀ k : Fin 10, digitValue (digit k.val) = k.val := by decide
  exact this ⟨n, h⟩

theorem isDigit_digit {n : Nat} (h : n < 10) : (digit n).isDigit = true := by
  have : ∀ k : Fin 10, (digit k.val).isDigit = true := by decide
  exact this ⟨n, h⟩

@[simp] theorem value_append_singleton (cs : List Char) (c : Char) :
    value (cs ++ [c]) = 10 * value cs + digitValue c := by
  simp [value, valueIn, List.foldl_append]

@[simp] theorem value_digits (n : Nat) : value (digits n) = n := by
  induction n using Nat.strongRecOn with
  | ind n ih =>
    rw [digits]
    split
    next h => simp [value, valueIn, digitValue_digit h]
    next h =>
      rw [value_append_singleton, ih (n / 10) (by omega), digitValue_digit (by omega)]
      omega

theorem isDigit_of_mem_digits {n : Nat} {c : Char} (h : c ∈ digits n) : c.isDigit = true := by
  induction n using Nat.strongRecOn with
  | ind n ih =>
    rw [digits] at h
    split at h
    next hn => rw [List.mem_singleton] at h; exact h ▸ isDigit_digit hn
    next hn =>
      rcases List.mem_append.mp h with h | h
      · exact ih (n / 10) (by omega) h
      · rw [List.mem_singleton] at h; exact h ▸ isDigit_digit (by omega)

end ContentVault.Decimal
