import ContentVault.Bytes.Crc
import Mathlib.Algebra.CharP.Two
import Mathlib.Algebra.Polynomial.Div
import Mathlib.Algebra.Field.ZMod
set_option autoImplicit false

/-!
# The checksum is a remainder

Bits are the coefficients of polynomials over the field of two elements, the lowest bit first.  A
bit that leaves the register is a step of the long division by the generator, so the register holds
the remainder of what was fed, behind the bits that it held at the start.
-/

namespace ContentVault.Crc

open Polynomial

/-! ## Words as polynomials -/

/-- The polynomial of the `width` low bits of a number; the lowest is the leading coefficient. -/
noncomputable def bitPoly (width n : Nat) : (ZMod 2)[X] :=
  ∑ i ∈ Finset.range width, C ((n.testBit i).toNat : ZMod 2) * X ^ (width - 1 - i)

/-- The first bit apart, the bits are those of half the number. -/
theorem bitPoly_succ_eq_head (width n : Nat) :
    bitPoly (width + 1) n
      = bitPoly width (n / 2) + C ((n.testBit 0).toNat : ZMod 2) * X ^ width := by
  rw [bitPoly, Finset.sum_range_succ', bitPoly]
  refine congrArg (· + _) (Finset.sum_congr rfl fun i _ => ?_)
  rw [Nat.testBit_succ, Nat.add_sub_cancel, Nat.sub_sub, Nat.add_comm 1 i]

/-- The last bit apart, the bits are followed by one more, a factor of `X`. -/
theorem bitPoly_succ_eq_last (width n : Nat) :
    bitPoly (width + 1) n
      = X * bitPoly width n + C ((n.testBit width).toNat : ZMod 2) := by
  have hlast : width + 1 - 1 - width = 0 := by omega
  rw [bitPoly, Finset.sum_range_succ, bitPoly, Finset.mul_sum, hlast, pow_zero, mul_one]
  refine congrArg (· + _) (Finset.sum_congr rfl fun i hi => ?_)
  have hexp : width + 1 - 1 - i = width - 1 - i + 1 := by
    have := Finset.mem_range.mp hi
    omega
  rw [hexp, pow_succ', mul_left_comm]

theorem bitPoly_xor (width m n : Nat) :
    bitPoly width (m ^^^ n) = bitPoly width m + bitPoly width n := by
  rw [bitPoly, bitPoly, bitPoly, ← Finset.sum_add_distrib]
  refine Finset.sum_congr rfl fun i _ => ?_
  have hbit : (((m ^^^ n).testBit i).toNat : ZMod 2)
      = (m.testBit i).toNat + (n.testBit i).toNat := by
    rw [Nat.testBit_xor]
    cases m.testBit i <;> cases n.testBit i <;> decide
  rw [hbit, C_add, add_mul]

/-- Bits beyond those of the number are factors of `X`. -/
theorem bitPoly_add_of_lt {width n : Nat} (h : n < 2 ^ width) (more : Nat) :
    bitPoly (width + more) n = X ^ more * bitPoly width n := by
  induction more with
  | zero => simp
  | succ more ih =>
    have hlt : n < 2 ^ (width + more) :=
      Nat.lt_of_lt_of_le h (Nat.pow_le_pow_right (by decide) (Nat.le_add_right ..))
    rw [← Nat.add_assoc, bitPoly_succ_eq_last, ih, Nat.testBit_lt_two_pow hlt, pow_succ]
    simp only [Bool.toNat_false, Nat.cast_zero, C_0, add_zero]
    ring

theorem degree_bitPoly_lt (width n : Nat) : (bitPoly width n).degree < width := by
  refine (degree_sum_le _ _).trans_lt ((Finset.sup_lt_iff (WithBot.bot_lt_coe width)).mpr ?_)
  intro i hi
  have := Finset.mem_range.mp hi
  refine (degree_C_mul_X_pow_le _ _).trans_lt (Nat.cast_lt.mpr ?_)
  omega

/-- Different bits are different polynomials. -/
theorem testBit_eq_of_bitPoly_eq {width m n : Nat} (h : bitPoly width m = bitPoly width n) :
    ∀ i < width, m.testBit i = n.testBit i := by
  induction width with
  | zero => exact fun _ hi => absurd hi (Nat.not_lt_zero _)
  | succ width ih =>
    rw [bitPoly_succ_eq_last, bitPoly_succ_eq_last] at h
    have hlast : m.testBit width = n.testBit width := by
      have hcoeff := congrArg (fun p => coeff p 0) h
      simp only [coeff_add, mul_coeff_zero, coeff_X_zero, zero_mul, zero_add, coeff_C_zero]
        at hcoeff
      revert hcoeff
      cases m.testBit width <;> cases n.testBit width <;> decide
    rw [hlast, add_left_inj] at h
    have hrest := ih (mul_left_cancel₀ X_ne_zero h)
    intro i hi
    rcases Nat.lt_succ_iff_lt_or_eq.mp hi with hlt | rfl
    · exact hrest i hlt
    · exact hlast

/-- The polynomial of a register or a checksum. -/
noncomputable def wordPoly (word : UInt32) : (ZMod 2)[X] := bitPoly 32 word.toNat

theorem wordPoly_xor (a b : UInt32) : wordPoly (a ^^^ b) = wordPoly a + wordPoly b := by
  rw [wordPoly, UInt32.toNat_xor, bitPoly_xor]
  rfl

theorem wordPoly_injective {a b : UInt32} (h : wordPoly a = wordPoly b) : a = b := by
  apply UInt32.toNat_inj.mp
  apply Nat.eq_of_testBit_eq
  intro i
  by_cases hi : i < 32
  · exact testBit_eq_of_bitPoly_eq h i hi
  · have hle : 2 ^ 32 ≤ 2 ^ i := Nat.pow_le_pow_right (by decide) (Nat.not_lt.mp hi)
    rw [Nat.testBit_lt_two_pow (Nat.lt_of_lt_of_le a.toNat_lt hle),
      Nat.testBit_lt_two_pow (Nat.lt_of_lt_of_le b.toNat_lt hle)]

/-! ## Division by the generator -/

/-- The polynomial by which is divided. -/
noncomputable def generator : (ZMod 2)[X] :=
  X ^ 32 + X ^ 26 + X ^ 23 + X ^ 22 + X ^ 16 + X ^ 12 + X ^ 11 + X ^ 10 + X ^ 8 + X ^ 7 + X ^ 5
    + X ^ 4 + X ^ 2 + X + 1

/-- The reflected polynomial holds the coefficients of the generator, the first apart. -/
theorem generator_eq : generator = X ^ 32 + wordPoly polynomial := by
  have hword : wordPoly polynomial = bitPoly 32 0xEDB88320 := rfl
  rw [hword, bitPoly]
  simp [Finset.sum_range_succ, generator, Nat.testBit_eq_decide_div_mod_eq, add_assoc]

theorem degree_wordPoly_lt (word : UInt32) : (wordPoly word).degree < (32 : ℕ) :=
  degree_bitPoly_lt 32 word.toNat

theorem generator_monic : generator.Monic := by
  rw [generator_eq]
  exact monic_X_pow_add (degree_wordPoly_lt polynomial)

theorem degree_generator : generator.degree = (32 : ℕ) := by
  have hlower : (wordPoly polynomial).degree < (X ^ 32 : (ZMod 2)[X]).degree := by
    rw [degree_X_pow]
    exact degree_wordPoly_lt polynomial
  rw [generator_eq, degree_add_eq_left_of_degree_lt hlower, degree_X_pow]

/-- A word that loses its first bit is multiplied by `X`, but for the leading term. -/
theorem wordPoly_half (word : UInt32) :
    wordPoly (word >>> 1)
      = X * wordPoly word + C ((word.toNat.testBit 0).toNat : ZMod 2) * X ^ 32 := by
  have hhalf : (word >>> 1).toNat = word.toNat / 2 := by
    rw [UInt32.toNat_shiftRight]
    rfl
  have hsteps := (bitPoly_succ_eq_head 32 word.toNat).symm.trans
    (bitPoly_succ_eq_last 32 word.toNat)
  rw [Nat.testBit_lt_two_pow word.toNat_lt, Bool.toNat_false, Nat.cast_zero, C_0, add_zero,
    CharTwo.add_eq_iff_eq_add] at hsteps
  rw [wordPoly, hhalf, hsteps, wordPoly]

theorem and_one_eq_one_iff (word : UInt32) : word &&& 1 = 1 ↔ word.toNat.testBit 0 = true := by
  rw [← UInt32.toNat_inj, UInt32.toNat_and, Nat.testBit_zero, decide_eq_true_iff]
  exact iff_of_eq (congrArg (· = 1) (Nat.and_one_is_mod word.toNat))

/-- A bit that leaves the register is a step of the division. -/
theorem generator_dvd_shift (register : UInt32) :
    generator ∣ wordPoly (shift register) - X * wordPoly register := by
  have hhalf := wordPoly_half register
  rw [shift]
  by_cases hbit : register &&& 1 = 1
  · rw [(and_one_eq_one_iff register).mp hbit, Bool.toNat_true, Nat.cast_one, C_1, one_mul]
      at hhalf
    rw [if_pos hbit, wordPoly_xor, hhalf, add_assoc, ← generator_eq, add_sub_cancel_left]
  · have hclear : register.toNat.testBit 0 = false :=
      Bool.eq_false_of_not_eq_true fun h => hbit ((and_one_eq_one_iff register).mpr h)
    rw [hclear, Bool.toNat_false, Nat.cast_zero, C_0, zero_mul, add_zero] at hhalf
    rw [if_neg hbit, hhalf, sub_self]
    exact dvd_zero generator

theorem generator_dvd_shifts (count : Nat) (register : UInt32) :
    generator ∣ wordPoly (shifts count register) - X ^ count * wordPoly register := by
  induction count generalizing register with
  | zero => simp [shifts]
  | succ count ih =>
    have hstep := (generator_dvd_shift register).mul_left (X ^ count)
    have hsum := dvd_add (ih (shift register)) hstep
    rwa [mul_sub, sub_add_sub_cancel, ← mul_assoc, ← pow_succ] at hsum

/-! ## Byte strings as polynomials -/

/-- The polynomial of a byte string: its bits in the order in which they enter the register. -/
noncomputable def messagePoly : Bytes → (ZMod 2)[X]
  | [] => 0
  | b :: bs => X ^ (8 * bs.length) * bitPoly 8 b.toNat + messagePoly bs

theorem wordPoly_byte (b : UInt8) : wordPoly b.toUInt32 = X ^ 24 * bitPoly 8 b.toNat := by
  rw [wordPoly, UInt8.toNat_toUInt32]
  have hb : b.toNat < 2 ^ 8 := b.toNat_lt
  exact bitPoly_add_of_lt hb 24

theorem generator_dvd_feed (register : UInt32) (b : UInt8) :
    generator ∣ wordPoly (feed register b)
      - (X ^ 8 * wordPoly register + X ^ 32 * bitPoly 8 b.toNat) := by
  have h := generator_dvd_shifts 8 (register ^^^ b.toUInt32)
  rwa [wordPoly_xor, wordPoly_byte, mul_add, ← mul_assoc, ← pow_add] at h

/-- What was fed is divided, behind the bits that the register held. -/
theorem generator_dvd_update (register : UInt32) (bs : Bytes) :
    generator ∣ wordPoly (update register bs)
      - (X ^ (8 * bs.length) * wordPoly register + X ^ 32 * messagePoly bs) := by
  induction bs generalizing register with
  | nil => simp [messagePoly]
  | cons b bs ih =>
    have hfeed := (generator_dvd_feed register b).mul_left (X ^ (8 * bs.length))
    have hsum := dvd_add (ih (feed register b)) hfeed
    have hregroup :
        wordPoly (update (feed register b) bs)
            - (X ^ (8 * bs.length) * wordPoly (feed register b) + X ^ 32 * messagePoly bs)
          + X ^ (8 * bs.length) * (wordPoly (feed register b)
            - (X ^ 8 * wordPoly register + X ^ 32 * bitPoly 8 b.toNat))
        = wordPoly (update register (b :: bs))
          - (X ^ (8 * (b :: bs).length) * wordPoly register
            + X ^ 32 * messagePoly (b :: bs)) := by
      rw [messagePoly, List.length_cons, Nat.mul_succ, pow_add]
      change _ = wordPoly (update (feed register b) bs) - _
      ring
    rwa [hregroup] at hsum

/-! ## The checksum -/

/-- The checksum of data by its definition: all bits of the register are set before the first byte,
and all are complemented after the division. -/
def IsCrc32 (data : Bytes) (word : UInt32) : Prop :=
  wordPoly word
    = (X ^ (8 * data.length) * wordPoly 0xFFFFFFFF + X ^ 32 * messagePoly data) %ₘ generator
      + wordPoly 0xFFFFFFFF

theorem wordPoly_update_initial (data : Bytes) :
    wordPoly (update initial data)
      = (X ^ (8 * data.length) * wordPoly 0xFFFFFFFF + X ^ 32 * messagePoly data) %ₘ generator := by
  have hdegree : (wordPoly (update initial data)).degree < generator.degree := by
    rw [degree_generator]
    exact degree_wordPoly_lt _
  have hremainder := modByMonic_eq_of_dvd_sub generator_monic (generator_dvd_update initial data)
  rw [(modByMonic_eq_self_iff generator_monic).mpr hdegree] at hremainder
  exact hremainder

/-- The checksum is the one word that is the remainder. -/
theorem isCrc32_iff {data : Bytes} {word : UInt32} : IsCrc32 data word ↔ word = checksum data := by
  rw [IsCrc32, ← wordPoly_update_initial, ← wordPoly_xor]
  exact ⟨wordPoly_injective, congrArg wordPoly⟩

/-- The digits from one to nine, the usual test. -/
example : checksum (Bytes.ofText "123456789") = 0xCBF43926 := by decide +kernel

end ContentVault.Crc
