import ContentVault.Text.Decimal
import Mathlib.Data.List.TakeDrop
set_option autoImplicit false

/-!
# Decimal numerals in front of a text

The digits of a number end where something else follows, and start with a zero only if the number
is zero.
-/

namespace ContentVault.Decimal

theorem digits_zero : digits 0 = ['0'] := by
  rw [digits]
  rfl

theorem digit_ne_zero {n : Nat} (hpos : 0 < n) (h : n < 10) : digit n ≠ '0' := by
  have hall : ∀ k : Fin 10, 0 < k.val → digit k.val ≠ '0' := by decide
  exact hall ⟨n, h⟩ hpos

/-- The numeral of a positive number does not start with a zero. -/
theorem exists_digits_eq_cons {n : Nat} (hpos : 0 < n) :
    ∃ c cs, digits n = c :: cs ∧ c ≠ '0' := by
  induction n using Nat.strongRecOn with
  | ind n ih =>
    rw [digits]
    split
    next h => exact ⟨digit n, [], rfl, digit_ne_zero hpos h⟩
    next h =>
      obtain ⟨c, cs, hdigits, hc⟩ := ih (n / 10) (by omega) (by omega)
      rw [hdigits]
      exact ⟨c, cs ++ [digit (n % 10)], rfl, hc⟩

/-- Every numeral starts with a digit. -/
theorem exists_isDigit_cons (n : Nat) : ∃ c cs, digits n = c :: cs ∧ c.isDigit = true := by
  have hall : ∀ c ∈ digits n, c.isDigit = true := fun c hc => isDigit_of_mem_digits hc
  rcases Nat.eq_zero_or_pos n with rfl | hpos
  · exact ⟨'0', [], digits_zero, rfl⟩
  · obtain ⟨c, cs, hdigits, _⟩ := exists_digits_eq_cons hpos
    rw [hdigits] at hall
    exact ⟨c, cs, hdigits, hall c List.mem_cons_self⟩

/-- An integer starts with a sign or a digit. -/
def Leads (c : Char) : Prop := c = '-' ∨ c.isDigit = true

theorem Leads.ne {c d : Char} (hc : Leads c) (hd : d.isDigit = false) (hminus : d ≠ '-') :
    c ≠ d := by
  rintro rfl
  rcases hc with rfl | hdigit
  · exact hminus rfl
  · rw [hd] at hdigit
    cases hdigit

/-- What follows a numeral does not start with a digit. -/
def Ends (rest : List Char) : Prop := ∀ c ∈ rest.head?, c.isDigit = false

theorem span_digits (n : Nat) {rest : List Char} (h : Ends rest) :
    (digits n ++ rest).span Char.isDigit = (digits n, rest) := by
  have hall : ∀ c ∈ digits n, c.isDigit = true := fun c hc => isDigit_of_mem_digits hc
  rw [List.span_eq_takeWhile_dropWhile, List.takeWhile_append_of_pos hall,
    List.dropWhile_append_of_pos hall]
  cases rest with
  | nil => simp
  | cons c rest =>
    have hc : c.isDigit = false := h c rfl
    simp [hc]

/-- The digits of a number are those that are shown. -/
theorem toDigits_eq_digits (n : Nat) : Nat.toDigits 10 n = digits n := by
  have hdigit : ∀ k : Fin 10, Nat.digitChar k.val = digit k.val := by decide
  induction n using Nat.strongRecOn with
  | ind n ih =>
    rw [Nat.toDigits_eq_if (by decide), digits]
    split
    next h => rw [hdigit ⟨n, h⟩]
    next h => rw [ih (n / 10) (by omega), hdigit ⟨n % 10, Nat.mod_lt n (by decide)⟩]

/-- An integer is shown as its digits after its sign. -/
theorem toList_toString_int (n : Int) :
    (toString n).toList = (if n < 0 then ['-'] else []) ++ digits n.natAbs := by
  cases n with
  | ofNat n =>
    rw [if_neg (by simp)]
    change n.repr.toList = _
    rw [Nat.toList_repr, toDigits_eq_digits]
    rfl
  | negSucc n =>
    rw [if_pos (Int.negSucc_lt_zero n)]
    change ("-" ++ (n + 1).repr).toList = _
    rw [String.toList_append, Nat.toList_repr, toDigits_eq_digits]
    rfl

end ContentVault.Decimal
