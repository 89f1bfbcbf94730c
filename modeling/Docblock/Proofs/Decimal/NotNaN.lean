import Docblock.Decimal.Reading
import Mathlib

/-!
# Texts write numbers

A text that is read as a double is never read as NaN. Rounding gives zero or a finite number,
packing keeps numbers apart from NaN, and reading multiplies and divides by powers of ten only,
which are finite and not zero.
-/

namespace Docblock.Decimal

open Float.Model

namespace Unpacked

variable {u v : UnpackedFloat}

def isRegular : UnpackedFloat → Bool
  | .finite .. => true
  | _ => false

theorem isNaN_roundWithAccuracy (spec : Format) (sign : UnpackedFloat.Sign) (m : Nat) (e : Int)
    (accuracy : UnpackedFloat.Accuracy) :
    (UnpackedFloat.roundWithAccuracy spec sign m e accuracy).isNaN = false := by
  unfold UnpackedFloat.roundWithAccuracy
  dsimp only
  split <;> rfl

theorem isNaN_normalize (spec : Format) (m e : Int) (sign : UnpackedFloat.Sign) :
    (UnpackedFloat.normalize spec m e sign).isNaN = false := by
  unfold UnpackedFloat.normalize
  split
  · exact isNaN_roundWithAccuracy ..
  · rfl
  · exact isNaN_roundWithAccuracy ..

theorem isNaN_mul (spec : Format) (hu : u.isNaN = false) (hv : isRegular v = true) :
    (UnpackedFloat.mul spec u v).isNaN = false := by
  cases v with
  | finite sign m e hm =>
    cases u with
    | notANumber => cases hu
    | finite other k f hk => exact isNaN_roundWithAccuracy ..
    | _ => rfl
  | _ => cases hv

theorem isNaN_div (spec : Format) (hu : u.isNaN = false) (hv : isRegular v = true) :
    (UnpackedFloat.div spec u v).isNaN = false := by
  cases v with
  | finite sign m e hm =>
    cases u with
    | notANumber => cases hu
    | finite other k f hk => exact isNaN_roundWithAccuracy ..
    | _ => rfl
  | _ => cases hv

theorem isNaN_ofScientific (spec : Format) (m : Nat) (e : Int) :
    (UnpackedFloat.ofScientific spec m e).isNaN = false := by
  unfold UnpackedFloat.ofScientific
  split
  · rfl
  · split
    · rfl
    · split
      · rfl
      · split
        · exact isNaN_mul spec rfl rfl
        · exact isNaN_div spec rfl rfl

theorem isNaN_neg (hu : u.isNaN = false) : u.neg.isNaN = false := by
  cases u with
  | notANumber => cases hu
  | _ => rfl

theorem isNaN_unpack {spec : Format} {bits : BitVec spec.numBits}
    (h : UnpackedFloat.unpackExponent bits = (-1#_) → UnpackedFloat.unpackMantissa bits = 0#_) :
    (UnpackedFloat.unpack spec bits).isNaN = false := by
  fun_cases UnpackedFloat.unpack with
  | case2 mantissa exponent hexponent hmantissa => exact absurd (h hexponent) hmantissa
  | _ => rfl

/-- Only infinities and NaN have all bits of the exponent set, and infinities have no mantissa. -/
theorem isNaN_unpack_pack {spec : Format} (hu : u.isNaN = false) :
    (UnpackedFloat.unpack spec (UnpackedFloat.pack spec u)).isNaN = false := by
  have hinfinity (sign : UnpackedFloat.Sign) :
      (UnpackedFloat.unpack spec (UnpackedFloat.packedInfinity spec sign)).isNaN = false :=
    isNaN_unpack fun _ => UnpackedFloat.unpackMantissa_packComponents
  fun_cases UnpackedFloat.pack with
  | case1 => cases hu
  | case2 sign => exact hinfinity sign
  | case3 sign => exact isNaN_unpack fun _ => UnpackedFloat.unpackMantissa_packComponents
  | case4 sign m e hm biased hlarge => exact hinfinity sign
  | case5 sign m e hm bits biased hsmall hnormal =>
    refine isNaN_unpack fun hexponent => ?_
    rw [UnpackedFloat.unpackExponent_packComponents] at hexponent
    have hvalue := congrArg BitVec.toNat hexponent
    rw [BitVec.toNat_ofNat, BitVec.neg_one_eq_allOnes, BitVec.toNat_allOnes,
      Nat.mod_eq_of_lt (by omega)] at hvalue
    omega
  | case6 sign m e hm bits biased hsmall hsubnormal =>
    refine isNaN_unpack fun hexponent => ?_
    rw [UnpackedFloat.unpackExponent_packComponents] at hexponent
    have hvalue := congrArg BitVec.toNat hexponent
    rw [BitVec.toNat_ofNat, Nat.zero_mod, BitVec.neg_one_eq_allOnes,
      BitVec.toNat_allOnes] at hvalue
    have hpositive := Nat.one_lt_two_pow spec.he.ne'
    omega

end Unpacked

variable {x : Float}

theorem isNaN_pack {u : UnpackedFloat} (hu : u.isNaN = false) :
    (Float.ofModel (.pack u)).isNaN = false := Unpacked.isNaN_unpack_pack hu

theorem isNaN_toFloat (n : UInt64) : n.toFloat.isNaN = false :=
  isNaN_pack (Unpacked.isNaN_normalize ..)

theorem isNaN_neg (h : x.isNaN = false) : x.neg.isNaN = false := isNaN_pack (Unpacked.isNaN_neg h)

theorem isRegular_powerOfTen : ∀ e : Fin 23,
    Unpacked.isRegular
      (getElem Float.exactlyRepresentablePowersOfTen e.val e.isLt).toModel.unpack = true := by
  decide

theorem isNaN_ofScientific (m : Nat) (s : Bool) (e : Nat) :
    (Float.ofScientific m s e).isNaN = false := by
  unfold Float.ofScientific
  split
  next hsmall =>
    have hpower := isRegular_powerOfTen ⟨e, Nat.lt_succ_of_le hsmall.2⟩
    dsimp only
    split
    · exact isNaN_pack (Unpacked.isNaN_div _ (isNaN_toFloat _) hpower)
    · exact isNaN_pack (Unpacked.isNaN_mul _ (isNaN_toFloat _) hpower)
  next => exact isNaN_pack (Unpacked.isNaN_ofScientific ..)

theorem isNaN_nearest (m : Nat) (e : Int) : (nearest m e).isNaN = false := by
  unfold nearest
  dsimp only
  split
  · exact isNaN_ofScientific ..
  · split
    · decide
    · split
      · exact isNaN_ofScientific ..
      · exact isNaN_ofScientific ..

theorem isNaN_of_readUnsigned? {cs : List Char} (h : readUnsigned? cs = some x) :
    x.isNaN = false := by
  unfold readUnsigned? at h
  obtain ⟨⟨ds, e, rest⟩, -, hread⟩ := Option.bind_eq_some_iff.mp h
  obtain ⟨f, -, rfl⟩ := Option.map_eq_some_iff.mp hread
  exact isNaN_nearest ..

theorem isNaN_of_readFloat? {cs : List Char} (h : readFloat? cs = some x) : x.isNaN = false := by
  unfold readFloat? at h
  split at h
  · obtain ⟨y, hy, rfl⟩ := Option.map_eq_some_iff.mp h
    exact isNaN_neg (isNaN_of_readUnsigned? hy)
  · exact isNaN_of_readUnsigned? h
  · exact isNaN_of_readUnsigned? h

/-- A double that a text writes is equal to itself. -/
theorem beq_self_of_readFloat? {cs : List Char} (h : readFloat? cs = some x) : (x == x) = true := by
  have hnan := isNaN_of_readFloat? h
  rw [Float.isNaN_eq_decide_eq_nan, decide_eq_false_iff_not] at hnan
  exact Float.beq_self_iff.mpr hnan

end Docblock.Decimal
