import Docblock.Decimal.Reading
import Docblock.Proofs.Decimal.Rounding
import Mathlib

/-!
# Doubles nearest to integers

Shifting an exact mantissa keeps the quotient and compares what was cut off with one half, which is
what rounding a half to the even neighbour asks for. A double that stands for a whole number has one
mantissa of 53 digits and one exponent, so that two of them are equal exactly if the numbers are.
-/

namespace Docblock.Decimal

open Float.Model

/-! ## Shifting a mantissa -/

section Shifting

open UnpackedFloat

variable {em : ExtendedMantissa} {a b : Nat}

/-- The mantissa is the whole part of `a / b`; the bits behind it compare the rest with one half. -/
structure CutsOff (em : ExtendedMantissa) (a b : Nat) : Prop where
  mantissa : em.mantissa = a / b
  roundBit : em.roundBit = true ↔ b ≤ 2 * (a % b)
  stickyBit : em.stickyBit = true ↔ 2 * (a % b) ≠ 0 ∧ 2 * (a % b) ≠ b

theorem cutsOff_exact (a : Nat) : CutsOff ⟨a, false, false⟩ a 1 where
  mantissa := (Nat.div_one a).symm
  roundBit := by simp [Nat.mod_one]
  stickyBit := by simp [Nat.mod_one]

theorem CutsOff.shiftRightOne (h : CutsOff em a b) (hb : 0 < b) :
    CutsOff em.shiftRightOne a (b * 2) := by
  have hrest : a % (b * 2) = a % b + b * (a / b % 2) := Nat.mod_mul
  have hsmall : a % b < b := Nat.mod_lt a hb
  have hparity : a / b % 2 = 0 ∨ a / b % 2 = 1 := Nat.mod_two_eq_zero_or_one _
  constructor
  · rw [ExtendedMantissa.shiftRightOne, h.mantissa, Nat.div_div_eq_div_mul]
  · rw [ExtendedMantissa.shiftRightOne, h.mantissa, bne_iff_ne, hrest]
    obtain heven | hodd := hparity
    · rw [heven]
      omega
    · rw [hodd]
      omega
  · rw [ExtendedMantissa.shiftRightOne, Bool.or_eq_true, h.roundBit, h.stickyBit, hrest]
    obtain heven | hodd := hparity
    · rw [heven]
      omega
    · rw [hodd]
      omega

theorem CutsOff.shiftRight (h : CutsOff em a b) (hb : 0 < b) (n : Nat) :
    CutsOff (em >>> n) a (b * 2 ^ n) := by
  induction n with
  | zero =>
    rw [Nat.pow_zero, Nat.mul_one]
    exact h
  | succ n ih =>
    rw [Nat.pow_succ, ← Nat.mul_assoc]
    exact ih.shiftRightOne (Nat.mul_pos hb (Nat.two_pow_pos n))

theorem CutsOff.roundedMantissa (h : CutsOff em a b) :
    em.roundedMantissa = roundHalfEven a b := by
  obtain ⟨m, roundBit, stickyBit⟩ := em
  obtain ⟨hmantissa, hround, hsticky⟩ := h
  dsimp only at hmantissa hround hsticky
  subst hmantissa
  cases roundBit with
  | false =>
    have hbelow : 2 * (a % b) < b := by simpa using hround
    cases stickyBit <;>
      simp [ExtendedMantissa.roundedMantissa, ExtendedMantissa.accuracy,
        Accuracy.roundToNearestEven, roundHalfEven, hbelow]
  | true =>
    have hhalf : b ≤ 2 * (a % b) := hround.1 rfl
    cases stickyBit with
    | false =>
      have htie : 2 * (a % b) = b := by
        simp only [Bool.false_eq_true, false_iff, not_and_or, not_not] at hsticky
        omega
      have hparity : a / b + a / b % 2 = if a / b % 2 = 0 then a / b else a / b + 1 := by
        split <;> omega
      simpa [ExtendedMantissa.roundedMantissa, ExtendedMantissa.accuracy,
        Accuracy.roundToNearestEven, roundHalfEven, htie] using hparity
    | true =>
      have habove : b < 2 * (a % b) := by
        have hne := (hsticky.1 rfl).2
        omega
      simp [ExtendedMantissa.roundedMantissa, ExtendedMantissa.accuracy,
        Accuracy.roundToNearestEven, roundHalfEven, habove, habove.le.not_gt]

end Shifting

/-! ## Doubles that stand for integers -/

namespace Unpacked

open UnpackedFloat

/-- The datum is finite, has 53 binary digits and fits the exponents of doubles, and its value is
the integer; zero has either sign. -/
inductive StandsFor : UnpackedFloat → Int → Prop where
  | zero (sign : Sign) : StandsFor (.zero sign) 0
  | finite {sign : Sign} {m j n : Nat} (hm : 0 < m) (hlow : 2 ^ 52 ≤ m) (hhigh : m < 2 ^ 53)
      (hvalue : m * 2 ^ j = n * 2 ^ 52) (hj : j < 1024) :
      StandsFor (.finite sign m (j - 52) hm) (sign.apply n)

theorem log2_mul_two_pow {k : Nat} (hk : 0 < k) (s : Nat) : (k * 2 ^ s).log2 = k.log2 + s := by
  rw [Nat.log2_eq_iff (Nat.mul_pos hk (Nat.two_pow_pos s)).ne']
  constructor
  · rw [Nat.pow_add]
    exact Nat.mul_le_mul_right _ (Nat.log2_self_le hk.ne')
  · rw [Nat.add_right_comm, Nat.pow_add]
    exact Nat.mul_lt_mul_of_pos_right Nat.lt_log2_self (Nat.two_pow_pos s)

theorem log2_eq {m : Nat} (hlow : 2 ^ 52 ≤ m) (hhigh : m < 2 ^ 53) : m.log2 = 52 := by
  rw [Nat.log2_eq_iff (by omega)]
  exact ⟨hlow, hhigh⟩

theorem targetExponent_eq {m : Nat} {e : Int} (h : -1022 ≤ m.log2 + e) :
    Format.binary64.targetExponent (totalExponent m e) = m.log2 + e - 52 := by
  simp only [Format.targetExponent, totalExponent, Format.mantissaBits, Format.minExponent]
  omega

theorem shiftToTargetExponent_eq {m : Nat} {e : Int} (hm : 52 ≤ m.log2) (h : -1022 ≤ m.log2 + e) :
    shiftToTargetExponent .binary64 m e .exact =
      (ExtendedMantissa.mk m false false >>> (m.log2 - 52), m.log2 + e - 52) := by
  have hshift : (m.log2 + e - 52 - e).toNat = m.log2 - 52 := by omega
  simp only [shiftToTargetExponent, targetExponent_eq h, shiftToExponent, hshift,
    ExtendedMantissa.ofMantissaAndAccuracy]
  congr 1
  omega

theorem exists_shiftToTargetExponent {m : Nat} {e : Int} (hm : 52 ≤ m.log2)
    (h : -1022 ≤ m.log2 + e) :
    ∃ em, shiftToTargetExponent .binary64 m e .exact = (em, m.log2 + e - 52) ∧
      em.roundedMantissa = roundHalfEven m (2 ^ (m.log2 - 52)) := by
  have hcut := (cutsOff_exact m).shiftRight Nat.one_pos (m.log2 - 52)
  rw [Nat.one_mul] at hcut
  exact ⟨_, shiftToTargetExponent_eq hm h, hcut.roundedMantissa⟩

theorem roundHalfEven_normal {k s : Nat} (hk : 0 < k) (hs : 52 ≤ k.log2 + s) :
    2 ^ 52 ≤ roundHalfEven (k * 2 ^ s) (2 ^ (k.log2 + s - 52)) ∧
      roundHalfEven (k * 2 ^ s) (2 ^ (k.log2 + s - 52)) ≤ 2 ^ 53 := by
  have hlow : 2 ^ 52 * 2 ^ (k.log2 + s - 52) ≤ k * 2 ^ s := by
    rw [← Nat.pow_add, Nat.add_sub_cancel' hs, ← log2_mul_two_pow hk]
    exact Nat.log2_self_le (Nat.mul_pos hk (Nat.two_pow_pos s)).ne'
  have hhigh : k * 2 ^ s ≤ 2 ^ 53 * 2 ^ (k.log2 + s - 52) := by
    have hexponent : 53 + (k.log2 + s - 52) = k.log2 + s + 1 := by omega
    rw [← Nat.pow_add, hexponent, ← log2_mul_two_pow hk]
    exact Nat.lt_log2_self.le
  exact ⟨le_roundHalfEven (Nat.two_pow_pos _) hlow, roundHalfEven_le (Nat.two_pow_pos _) hhigh⟩

/-- With binary places added, as many as are wanted, the same places are rounded off. -/
theorem roundHalfEven_mul_two_pow {k s : Nat} (hk : 0 < k) (hs : 52 ≤ k.log2 + s) :
    roundHalfEven (k * 2 ^ s) (2 ^ (k.log2 + s - 52)) * 2 ^ k.log2 = rounded k * 2 ^ 52 := by
  unfold rounded lastPlace
  by_cases hlong : 52 ≤ k.log2
  · have hplaces : k.log2 + s - 52 = k.log2 - 52 + s := by omega
    have hpower : 2 ^ k.log2 = 2 ^ (k.log2 - 52) * 2 ^ 52 := by
      rw [← Nat.pow_add, Nat.sub_add_cancel hlong]
    rw [hplaces, Nat.pow_add, roundHalfEven_mul_right _ _ (Nat.two_pow_pos s), hpower,
      Nat.mul_assoc]
  · have hexact : k * 2 ^ s = k * 2 ^ (52 - k.log2) * 2 ^ (k.log2 + s - 52) := by
      rw [Nat.mul_assoc, ← Nat.pow_add]
      congr 2
      omega
    have hpower : 2 ^ (52 - k.log2) * 2 ^ k.log2 = 2 ^ 52 := by
      rw [← Nat.pow_add, Nat.sub_add_cancel (by omega)]
    have hshort : k < 2 ^ 53 := (Nat.log2_lt hk.ne').1 (by omega)
    rw [hexact, roundHalfEven_mul _ _ (Nat.two_pow_pos _), Nat.mul_assoc, hpower]
    exact congrArg (· * 2 ^ 52) (rounded_of_lt hshort).symm

theorem shiftToTargetExponent_normal {m j : Nat} (hlow : 2 ^ 52 ≤ m) (hhigh : m < 2 ^ 53) :
    shiftToTargetExponent .binary64 m ((j : Int) - 52) .exact =
      (⟨m, false, false⟩, (j : Int) - 52) := by
  have hlog := log2_eq hlow hhigh
  have hexponent : ((52 : Nat) : Int) + (j - 52) - 52 = j - 52 := by omega
  rw [shiftToTargetExponent_eq (by omega) (by omega), hlog, hexponent]
  rfl

theorem shiftToTargetExponent_carry (j : Nat) :
    shiftToTargetExponent .binary64 (2 ^ 53) ((j : Int) - 52) .exact =
      (⟨2 ^ 52, false, false⟩, ((j + 1 : Nat) : Int) - 52) := by
  have hlog : (2 ^ 53 : Nat).log2 = 53 := Nat.log2_two_pow
  have hexponent : ((53 : Nat) : Int) + (j - 52) - 52 = (j + 1 : Nat) - 52 := by omega
  rw [shiftToTargetExponent_eq (by omega) (by omega), hlog, hexponent]
  rfl

section Rounding

variable {m j r : Nat} {e : Int} {accuracy : Accuracy} {em : ExtendedMantissa}

theorem roundWithAccuracy_normal (sign : Sign)
    (hshift : shiftToTargetExponent .binary64 m e accuracy = (em, (j : Int) - 52))
    (hround : em.roundedMantissa = r) (hlow : 2 ^ 52 ≤ r) (hhigh : r < 2 ^ 53) (hr : 0 < r) :
    roundWithAccuracy .binary64 sign m e accuracy = .finite sign r (j - 52) hr := by
  unfold roundWithAccuracy
  rw [hshift]
  dsimp only
  rw [hround, shiftToTargetExponent_normal hlow hhigh]
  exact dif_neg hr.ne'

theorem roundWithAccuracy_carry (sign : Sign)
    (hshift : shiftToTargetExponent .binary64 m e accuracy = (em, (j : Int) - 52))
    (hround : em.roundedMantissa = 2 ^ 53) :
    roundWithAccuracy .binary64 sign m e accuracy =
      .finite sign (2 ^ 52) ((j + 1 : Nat) - 52) (Nat.two_pow_pos 52) := by
  unfold roundWithAccuracy
  rw [hshift]
  dsimp only
  rw [hround, shiftToTargetExponent_carry]
  rfl

end Rounding

/-- Rounding the exact value of a whole number gives the double nearest to it. The mantissa may be
rounded up to one that needs a digit more, and is shifted again then. -/
theorem standsFor_roundWithAccuracy {k s : Nat} (hk : 0 < k) (hs : 52 ≤ k.log2 + s)
    (hlog : k.log2 < 1023) (sign : Sign) :
    StandsFor (roundWithAccuracy .binary64 sign (k * 2 ^ s) (-s) .exact)
      (sign.apply (rounded k)) := by
  have hdigits := log2_mul_two_pow hk s
  obtain ⟨em, hshift, hround⟩ :=
    exists_shiftToTargetExponent (m := k * 2 ^ s) (e := -s) (by omega) (by omega)
  have hexponent : ((k.log2 + s : Nat) : Int) + -s - 52 = k.log2 - 52 := by omega
  rw [hdigits, hexponent] at hshift
  rw [hdigits] at hround
  obtain ⟨hlow, hhigh⟩ := roundHalfEven_normal hk hs
  have hvalue := roundHalfEven_mul_two_pow hk hs
  obtain hnormal | hcarry := hhigh.lt_or_eq
  · rw [roundWithAccuracy_normal sign hshift hround hlow hnormal (by omega)]
    exact .finite _ hlow hnormal hvalue (by omega)
  · rw [roundWithAccuracy_carry sign hshift (hround.trans hcarry)]
    have hdouble : 2 ^ 52 * 2 ^ (k.log2 + 1) = rounded k * 2 ^ 52 := by
      rw [← hvalue, hcarry, Nat.pow_succ]
      omega
    exact .finite _ le_rfl (by decide) hdouble (by omega)

@[simp] theorem unpackSign_packComponents {spec : Format} {sign : Sign}
    {exponent : BitVec spec.exponentBits} {mantissa : BitVec spec.mantissaBitsWithoutImplicit} :
    unpackSign (packComponents spec sign exponent mantissa) = sign.toBitVec := by
  ext i hi
  have hlow : i = 0 := by omega
  simp [unpackSign, packComponents, BitVec.getLsbD_append, BitVec.getElem_append, hlow]

@[simp] theorem ofBitVec_toBitVec (sign : Sign) : Sign.ofBitVec sign.toBitVec = sign := by
  cases sign <;> rfl

theorem pack_normal (sign : Sign) {m j : Nat} (hm : 0 < m) (hlog : m.log2 = 52) (hj : j < 1024) :
    pack .binary64 (.finite sign m (j - 52) hm) =
      packComponents .binary64 sign (BitVec.ofNat 11 (j + 1023)) (BitVec.ofNat 52 m) := by
  have hbiased : ((j : Int) - 52 + Format.binary64.exponentBias +
      Format.binary64.mantissaBitsWithoutImplicit).toNat = j + 1023 := by
    simp only [Format.exponentBias]
    omega
  have hfits : ¬ 2 ^ Format.binary64.exponentBits ≤ j + 1023 + 1 := by
    dsimp only
    omega
  unfold UnpackedFloat.pack
  dsimp only
  rw [hbiased, hlog, if_neg hfits, if_pos (show 52 + 1 = Format.binary64.mantissaBits from rfl)]

theorem toNat_append_implicit {m : Nat} (hlow : 2 ^ 52 ≤ m) (hhigh : m < 2 ^ 53) :
    (1#1 ++ BitVec.ofNat 52 m).toNat = m := by
  rw [BitVec.toNat_append, ← Nat.shiftLeft_add_eq_or_of_lt (BitVec.isLt _), BitVec.toNat_ofNat]
  simp only [BitVec.toNat_ofNat, Nat.shiftLeft_eq]
  omega

theorem unpack_packComponents_normal (sign : Sign) {m j : Nat} (hm : 0 < m) (hlow : 2 ^ 52 ≤ m)
    (hhigh : m < 2 ^ 53) (hj : j < 1024) :
    unpack .binary64
        (packComponents .binary64 sign (BitVec.ofNat 11 (j + 1023)) (BitVec.ofNat 52 m)) =
      .finite sign m (j - 52) hm := by
  have hfield : (BitVec.ofNat 11 (j + 1023)).toNat = j + 1023 := by
    rw [BitVec.toNat_ofNat]
    omega
  have hfull : BitVec.ofNat 11 (j + 1023) ≠ -1#11 := by
    intro h
    rw [h] at hfield
    have hones : (-1#11).toNat = 2047 := rfl
    omega
  have hzero : BitVec.ofNat 11 (j + 1023) ≠ 0#11 := by
    intro h
    rw [h] at hfield
    have hzeros : (0#11).toNat = 0 := rfl
    omega
  have hexponent : ((j + 1023 : Nat) : Int) -
      (Format.binary64.exponentBias + Format.binary64.mantissaBitsWithoutImplicit) = j - 52 := by
    simp only [Format.exponentBias]
    omega
  unfold UnpackedFloat.unpack
  simp only [unpackMantissa_packComponents, unpackExponent_packComponents,
    unpackSign_packComponents, ofBitVec_toBitVec]
  rw [if_neg hfull, if_neg hzero]
  simp only [hfield, hexponent, toNat_append_implicit hlow hhigh]

/-- No bit is lost when such a number is stored. -/
theorem StandsFor.unpack_pack {u : UnpackedFloat} {n : Int} (h : StandsFor u n) :
    unpack .binary64 (pack .binary64 u) = u := by
  cases h with
  | zero sign => cases sign <;> rfl
  | @finite sign m j n hm hlow hhigh hvalue hj =>
    rw [pack_normal sign hm (log2_eq hlow hhigh) hj,
      unpack_packComponents_normal sign hm hlow hhigh hj]

theorem StandsFor.neg {u : UnpackedFloat} {n : Int} (h : StandsFor u n) : StandsFor u.neg (-n) := by
  cases h with
  | zero sign => exact .zero (-sign)
  | @finite sign m j n hm hlow hhigh hvalue hj =>
    have hsign : -(sign.apply n) = (-sign).apply n := by
      cases sign with
      | negative => exact Int.neg_neg _
      | positive => rfl
    rw [hsign]
    exact .finite hm hlow hhigh hvalue hj

theorem eq_of_mul_two_pow {m k i j : Nat} (hm : 2 ^ 52 ≤ m ∧ m < 2 ^ 53)
    (hk : 2 ^ 52 ≤ k ∧ k < 2 ^ 53) (h : m * 2 ^ i = k * 2 ^ j) : m = k ∧ i = j := by
  have hexponents : i = j := by
    have hlog := congrArg Nat.log2 h
    rw [log2_mul_two_pow (by omega), log2_mul_two_pow (by omega), log2_eq hm.1 hm.2,
      log2_eq hk.1 hk.2] at hlog
    omega
  subst hexponents
  exact ⟨Nat.eq_of_mul_eq_mul_right (Nat.two_pow_pos i) h, rfl⟩

theorem pos_of_mul_two_pow {m j n : Nat} (hm : 0 < m) (h : m * 2 ^ j = n * 2 ^ 52) : 0 < n := by
  have hpos : 0 < n * 2 ^ 52 := h ▸ Nat.mul_pos hm (Nat.two_pow_pos j)
  omega

/-- Magnitudes are compared by exponent and mantissa, which are those of one number only. -/
theorem compare_eq_iff {m k i j a b : Nat} (hm : 2 ^ 52 ≤ m ∧ m < 2 ^ 53)
    (hk : 2 ^ 52 ≤ k ∧ k < 2 ^ 53) (ha : m * 2 ^ i = a * 2 ^ 52) (hb : k * 2 ^ j = b * 2 ^ 52) :
    (compare ((i : Int) - 52) (j - 52)).then (compare m k) = .eq ↔ a = b := by
  rw [Ordering.then_eq_eq, compare_eq_iff_eq, compare_eq_iff_eq]
  constructor
  · rintro ⟨hexponent, rfl⟩
    obtain rfl : i = j := by omega
    omega
  · rintro rfl
    obtain ⟨rfl, rfl⟩ := eq_of_mul_two_pow hm hk (ha.trans hb.symm)
    exact ⟨rfl, rfl⟩

theorem StandsFor.beq_iff {u v : UnpackedFloat} {n k : Int} (hu : StandsFor u n)
    (hv : StandsFor v k) : u.beq v = true ↔ n = k := by
  unfold UnpackedFloat.beq
  cases hu with
  | zero sign =>
    cases hv with
    | zero => simp [UnpackedFloat.compare]
    | @finite sign m j n hm hlow hhigh hvalue hj =>
      have hn := pos_of_mul_two_pow hm hvalue
      cases sign <;> simp [UnpackedFloat.compare, Sign.apply] <;> omega
  | @finite sign m i n hm hlow hhigh hvalue hi =>
    have hn := pos_of_mul_two_pow hm hvalue
    cases hv with
    | zero => cases sign <;> simp [UnpackedFloat.compare, Sign.apply] <;> omega
    | @finite other k j o hk hlow' hhigh' hother hj =>
      -- Neither number is zero, so that different signs keep them apart.
      have ho := pos_of_mul_two_pow hk hother
      have hmagnitude := compare_eq_iff ⟨hlow, hhigh⟩ ⟨hlow', hhigh'⟩ hvalue hother
      cases sign <;> cases other <;>
        simp [UnpackedFloat.compare, Sign.apply, hmagnitude, Ordering.swap_eq_eq]
      all_goals omega

theorem StandsFor.mul_one {u : UnpackedFloat} {n : Int} (h : StandsFor u n) :
    StandsFor (mul .binary64 u (.finite .positive (2 ^ 52) (-52) (Nat.two_pow_pos 52))) n := by
  cases h with
  | zero sign => exact .zero _
  | @finite sign m j n hm hlow hhigh hvalue hj =>
    have hsign : sign * .positive = sign := by cases sign <;> rfl
    have hlog : (m * 2 ^ 52).log2 = 104 := by
      rw [log2_mul_two_pow hm, log2_eq hlow hhigh]
    obtain ⟨em, hshift, hround⟩ := exists_shiftToTargetExponent (m := m * 2 ^ 52)
      (e := (j : Int) - 52 + -52) (by omega) (by omega)
    have hexponent : ((104 : Nat) : Int) + (j - 52 + -52) - 52 = j - 52 := by omega
    rw [hlog, hexponent] at hshift
    rw [hlog, roundHalfEven_mul m _ (Nat.two_pow_pos _)] at hround
    change StandsFor (roundWithAccuracy .binary64 (sign * .positive) (m * 2 ^ 52)
      ((j : Int) - 52 + -52) .exact) _
    rw [hsign, roundWithAccuracy_normal sign hshift hround hlow hhigh hm]
    exact .finite hm hlow hhigh hvalue hj

theorem standsFor_ofScientific {n : Nat} (hn : 0 < n) (hlog : n.log2 < 1023) :
    StandsFor (UnpackedFloat.ofScientific .binary64 n 0) (rounded n) := by
  have hsmall : ¬ (0 : Int) > 2 ^ Format.binary64.exponentBits := by decide
  have hlarge : ¬ (0 : Int) < -((2 ^ Format.binary64.exponentBits : Int) + n.log2) := by
    dsimp only
    omega
  have hmantissa : n <<< 53 * 1 = n * 2 ^ 53 := by
    rw [Nat.mul_one, Nat.shiftLeft_eq]
  unfold UnpackedFloat.ofScientific
  rw [dif_neg hn.ne', if_neg hsmall, if_neg hlarge, if_pos le_rfl]
  change StandsFor (roundWithAccuracy .binary64 .positive (n <<< 53 * 1) (-(53 : Nat)) .exact) _
  rw [hmantissa]
  exact standsFor_roundWithAccuracy hn (by omega) hlog .positive

theorem standsFor_ofNat {n : Nat} (hn : 0 < n) (hshort : n < 2 ^ 53) :
    StandsFor (UnpackedFloat.ofNat .binary64 n) (rounded n) := by
  have hlog : n.log2 < 53 := (Nat.log2_lt hn.ne').2 hshort
  have hcompare : compare (n : Int) 0 = .gt := by
    rw [compare_gt_iff_gt]
    omega
  have hshift : (0 - ((n.log2 : Int) + 0 - 52)).toNat = 52 - n.log2 := by omega
  unfold UnpackedFloat.ofNat UnpackedFloat.ofInt UnpackedFloat.normalize
  rw [hcompare]
  dsimp only
  unfold UnpackedFloat.round decreaseExponent
  rw [Int.toNat_natCast, targetExponent_eq (by omega)]
  dsimp only
  rw [hshift, Nat.shiftLeft_eq, Int.zero_sub]
  exact standsFor_roundWithAccuracy hn (by omega) (by omega) .positive

end Unpacked

def StandsFor (x : Float) (n : Int) : Prop := Unpacked.StandsFor x.toModel.unpack n

theorem StandsFor.beq_iff {x y : Float} {n k : Int} (hx : StandsFor x n) (hy : StandsFor y k) :
    (x == y) = true ↔ n = k := Unpacked.StandsFor.beq_iff hx hy

theorem standsFor_pack {u : UnpackedFloat} {n : Int} (h : Unpacked.StandsFor u n) :
    StandsFor (.ofModel (.pack u)) n := by
  change Unpacked.StandsFor (UnpackedFloat.unpack .binary64 (UnpackedFloat.pack .binary64 u)) n
  rwa [h.unpack_pack]

theorem StandsFor.neg {x : Float} {n : Int} (h : StandsFor x n) : StandsFor x.neg (-n) :=
  standsFor_pack (Unpacked.StandsFor.neg h)

theorem standsFor_toFloat {n : Nat} (hn : 0 < n) (h : n < 2 ^ 53) :
    StandsFor n.toUInt64.toFloat (rounded n) := by
  have hvalue : n.toUInt64.toNat = n := Nat.mod_eq_of_lt (by omega)
  change StandsFor (.ofModel (.pack (.ofNat .binary64 n.toUInt64.toNat))) (rounded n)
  rw [hvalue]
  exact standsFor_pack (Unpacked.standsFor_ofNat hn h)

theorem unpack_one : (Float.ofBits 0x3FF0000000000000).toModel.unpack =
    .finite .positive (2 ^ 52) (-52) (Nat.two_pow_pos 52) := rfl

theorem StandsFor.mul_one {x : Float} {n : Int} (h : StandsFor x n) :
    StandsFor (x * Float.ofBits 0x3FF0000000000000) n := by
  apply standsFor_pack
  rw [unpack_one]
  exact Unpacked.StandsFor.mul_one h

/-- Whole numbers are rounded to the nearest double. -/
theorem standsFor_ofNat {n : Nat} (h : n < 2 ^ 64) : StandsFor (.ofNat n) (rounded n) := by
  change StandsFor (.ofScientific n false 0) (rounded n)
  obtain rfl | hn := Nat.eq_zero_or_pos n
  · exact .zero .positive
  -- Short numbers are converted first and then multiplied by one, the zeroth power of ten.
  unfold Float.ofScientific
  split
  next hshort => exact (standsFor_toFloat hn hshort.1).mul_one
  next =>
    have hlog : n.log2 < 64 := (Nat.log2_lt hn.ne').2 h
    exact standsFor_pack (Unpacked.standsFor_ofScientific hn (by omega))

theorem standsFor_ofInt {n : Int} (h : n.natAbs < 2 ^ 64) :
    StandsFor (.ofInt n) (roundedInt n) := by
  cases n with
  | ofNat k =>
    have hsign : roundedInt (.ofNat k) = rounded k := roundedInt_natCast k
    rw [hsign]
    exact standsFor_ofNat h
  | negSucc k =>
    have hsign : roundedInt (.negSucc k) = -rounded (k + 1) := by
      rw [Int.negSucc_eq, roundedInt_neg, ← roundedInt_natCast]
      rfl
    rw [hsign]
    exact (standsFor_ofNat h).neg

end Docblock.Decimal
