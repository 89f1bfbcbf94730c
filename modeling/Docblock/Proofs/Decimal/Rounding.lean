import Docblock.Decimal.Fixed
import Mathlib.Algebra.Order.Ring.Int
import Mathlib.Tactic.SplitIfs

/-!
# Rounding integers to doubles

A double has 53 binary digits. An integer with more of them is rounded to a multiple of a power of
two, a half to the even one, and so moves by half of its last place at most. Short integers are kept
and share their double with no other integer.
-/

namespace Docblock.Decimal

def lastPlace (n : Nat) : Nat := 2 ^ (n.log2 - 52)

/-- The double nearest to a whole number, the one with the even mantissa at equal distance. -/
def rounded (n : Nat) : Nat := roundHalfEven n (lastPlace n) * lastPlace n

def roundedInt (n : Int) : Int := n.sign * rounded n.natAbs

/-! ## Rounding to a multiple -/

section RoundHalfEven

variable {n a b c k : Nat}

theorem roundHalfEven_eq_or (a b : Nat) :
    roundHalfEven a b = a / b ∨ roundHalfEven a b = a / b + 1 := by
  unfold roundHalfEven
  dsimp only
  split_ifs <;> simp

/-- Rounding does not cross a whole number. -/
theorem le_roundHalfEven (hb : 0 < b) (h : k * b ≤ a) : k ≤ roundHalfEven a b := by
  have hbelow : k ≤ a / b := (Nat.le_div_iff_mul_le hb).2 h
  obtain heq | heq := roundHalfEven_eq_or a b <;> omega

theorem roundHalfEven_le (hb : 0 < b) (h : a ≤ k * b) : roundHalfEven a b ≤ k := by
  obtain rfl | hlt := h.eq_or_lt
  · rw [roundHalfEven_mul k b hb]
  · have hbelow : a / b < k := (Nat.div_lt_iff_lt_mul hb).2 hlt
    obtain heq | heq := roundHalfEven_eq_or a b <;> omega

theorem roundHalfEven_close (a : Nat) (hb : 0 < b) :
    2 * a ≤ 2 * (roundHalfEven a b * b) + b ∧ 2 * (roundHalfEven a b * b) ≤ 2 * a + b := by
  have hsplit : a / b * b + a % b = a := Nat.div_add_mod' a b
  have hnext : (a / b + 1) * b = a / b * b + b := Nat.succ_mul ..
  have hrest : a % b < b := Nat.mod_lt a hb
  unfold roundHalfEven
  dsimp only
  split_ifs <;> omega

theorem roundHalfEven_mul_right (a b : Nat) (hc : 0 < c) :
    roundHalfEven (a * c) (b * c) = roundHalfEven a b := by
  have htwice : 2 * (a % b * c) = 2 * (a % b) * c := (Nat.mul_assoc ..).symm
  unfold roundHalfEven
  dsimp only
  rw [Nat.mul_div_mul_right _ _ hc, Nat.mul_mod_mul_right, htwice]
  simp only [Nat.mul_lt_mul_right hc]

theorem rounded_of_lt (h : n < 2 ^ 53) : rounded n = n := by
  have hplace : lastPlace n = 1 := by
    obtain rfl | hn := Nat.eq_zero_or_pos n
    · rfl
    · have hlog : n.log2 < 53 := (Nat.log2_lt hn.ne').2 h
      have hplaces : n.log2 - 52 = 0 := by omega
      rw [lastPlace, hplaces, Nat.pow_zero]
  rw [rounded, hplace, Nat.mul_one]
  simpa using roundHalfEven_mul n 1 Nat.one_pos

theorem le_rounded (h : 2 ^ 53 ≤ n) : 2 ^ 53 ≤ rounded n := by
  have hn : n ≠ 0 := by omega
  have hlog : 53 ≤ n.log2 := (Nat.le_log2 hn).2 h
  have hlead : 2 ^ 52 * lastPlace n = 2 ^ n.log2 := by
    rw [lastPlace, ← Nat.pow_add]
    congr 1
    omega
  have hmantissa : 2 ^ 52 ≤ roundHalfEven n (lastPlace n) :=
    le_roundHalfEven (Nat.two_pow_pos _) (hlead ▸ Nat.log2_self_le hn)
  calc 2 ^ 53 ≤ 2 ^ n.log2 := Nat.pow_le_pow_right Nat.two_pos hlog
    _ = 2 ^ 52 * lastPlace n := hlead.symm
    _ ≤ rounded n := Nat.mul_le_mul_right _ hmantissa

/-- Rounding moves a number by half of its last place at most. -/
theorem rounded_close (n : Nat) :
    2 * n ≤ 2 * rounded n + lastPlace n ∧ 2 * rounded n ≤ 2 * n + lastPlace n :=
  roundHalfEven_close n (Nat.two_pow_pos _)

end RoundHalfEven

/-! ## Integers with the same double -/

section RoundedInt

variable {n m : Int}

theorem roundedInt_natCast (n : Nat) : roundedInt n = rounded n := by
  obtain rfl | hn := Nat.eq_zero_or_pos n
  · rfl
  · rw [roundedInt, Int.sign_eq_one_of_pos (by omega), Int.one_mul, Int.natAbs_natCast]

theorem roundedInt_neg (n : Int) : roundedInt (-n) = -roundedInt n := by
  rw [roundedInt, roundedInt, Int.sign_neg, Int.natAbs_neg, Int.neg_mul]

theorem natAbs_roundedInt (n : Int) : (roundedInt n).natAbs = rounded n.natAbs := by
  obtain ⟨k, rfl | rfl⟩ := n.eq_nat_or_neg
  · rw [roundedInt_natCast, Int.natAbs_natCast, Int.natAbs_natCast]
  · rw [roundedInt_neg, roundedInt_natCast, Int.natAbs_neg, Int.natAbs_neg, Int.natAbs_natCast,
      Int.natAbs_natCast]

theorem roundedInt_of_lt (h : n.natAbs < 2 ^ 53) : roundedInt n = n := by
  rw [roundedInt, rounded_of_lt h, Int.sign_mul_natAbs]

theorem roundedInt_close (n : Int) : 2 * (n - roundedInt n).natAbs ≤ lastPlace n.natAbs := by
  obtain ⟨k, rfl | rfl⟩ := n.eq_nat_or_neg
  · have hclose := rounded_close k
    rw [roundedInt_natCast, Int.natAbs_natCast]
    omega
  · have hclose := rounded_close k
    rw [roundedInt_neg, roundedInt_natCast, Int.natAbs_neg, Int.natAbs_natCast]
    omega

theorem eq_of_roundedInt_eq (h : roundedInt n = roundedInt m) (hn : n.natAbs < 2 ^ 53) : n = m := by
  have hm : m.natAbs < 2 ^ 53 := by
    by_contra hlong
    have hrounded := le_rounded (Nat.le_of_not_lt hlong)
    rw [← natAbs_roundedInt, ← h, roundedInt_of_lt hn] at hrounded
    omega
  rwa [roundedInt_of_lt hn, roundedInt_of_lt hm] at h

/-- Short integers share their double with no other integer. -/
theorem roundedInt_eq_iff (h : n.natAbs < 2 ^ 53 ∨ m.natAbs < 2 ^ 53) :
    roundedInt n = roundedInt m ↔ n = m := by
  constructor
  · intro heq
    obtain hn | hm := h
    · exact eq_of_roundedInt_eq heq hn
    · exact (eq_of_roundedInt_eq heq.symm hm).symm
  · rintro rfl
    rfl

/-- Integers with the same double are apart by half of their last places at most. -/
theorem distance_le_of_roundedInt_eq (h : roundedInt n = roundedInt m) :
    2 * (n - m).natAbs ≤ lastPlace n.natAbs + lastPlace m.natAbs := by
  have hn := roundedInt_close n
  have hm := roundedInt_close m
  rw [h] at hn
  omega

end RoundedInt

end Docblock.Decimal
