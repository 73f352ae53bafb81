import ContentVault.Text.Double
set_option autoImplicit false

/-!
# How large a number is

A number with a fraction or an exponent is read into a double in one multiplication.
Of its digits as many are kept as fit in a word of 64 bits, the word is rounded to a
double, and the double is multiplied by a power of ten that is a double as well.  So a
number next to the end of the range may be refused or accepted by the way in which it
is written, and the rule is kept here in exact arithmetic.
-/

namespace ContentVault.Json

/-- A word and the power of ten that it is multiplied by. -/
structure Approximate where
  word : Nat
  exponent : Int
  deriving DecidableEq, Repr, Inhabited

namespace Approximate

/-- Appends digits to a word for as long as it does not overflow; tells how many were left. -/
def append (word : Nat) : List Char → Nat × Nat
  | [] => (word, 0)
  | c :: cs =>
    let longer := 10 * word + Decimal.digitValue c
    if longer < UInt64.size then append longer cs else (word, (c :: cs).length)

/-- The word of the digits before and after the point, and its power of ten. -/
def ofDigits (integral fraction : List Char) (exponent : Int) : Approximate :=
  let (word, dropped) := append 0 integral
  let (word, left) := append word fraction
  ⟨word, exponent + dropped - (fraction.length - left : Nat)⟩

/-- Multiplying leads beyond the doubles. -/
def isTooLarge (a : Approximate) : Bool :=
  if a.word = 0 || a.exponent < 0 then false
  else if Double.maxPower < a.exponent then true
  else Double.infinite ≤ Double.nearest a.word * Double.nearest (Nat.pow 10 a.exponent.toNat)

end Approximate

end ContentVault.Json
