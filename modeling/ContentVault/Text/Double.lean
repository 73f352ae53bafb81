import ContentVault.Text.Decimal
set_option autoImplicit false

/-!
# The range of doubles

A numeral is read into a double of 53 significant bits.  Large doubles are whole
numbers, so rounding and the end of the range are questions about natural numbers.
-/

namespace ContentVault.Double

/-- The double nearest to a natural number; of two that are as near, the even one. -/
def nearest (n : Nat) : Nat :=
  let shift := n.log2 - 52
  let unit := 1 <<< shift
  let (quotient, rest) := (n / unit, n % unit)
  let up := unit < 2 * rest || unit = 2 * rest && quotient % 2 = 1
  (if up then quotient + 1 else quotient) * unit

/-- The least natural number that is nearer to infinity than to a double. -/
def infinite : Nat := (1 <<< 1024) - (1 <<< 970)

/-- The exponent of the largest power of ten among the doubles. -/
def maxPower : Nat := 308

/-- The number `mantissa * 10 ^ exponent` rounds to infinity. -/
def isBeyond (mantissa : List Char) (exponent : Int) : Bool :=
  let m := Decimal.value mantissa
  let magnitude : Int := (mantissa.dropWhile (· = '0')).length + exponent
  if m = 0 || magnitude < 300 then false
  else if 320 < magnitude then true
  else
    let scale := Nat.pow 10 exponent.natAbs
    if exponent < 0 then infinite * scale ≤ m else infinite ≤ m * scale

end ContentVault.Double
