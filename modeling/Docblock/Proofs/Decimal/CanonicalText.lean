import Docblock.Proofs.Decimal.MachineText
import Mathlib.Data.Set.Function

/-!
# Keys and their texts

An integer has one canonical text: its digits without a leading zero, and a minus in front of them
if it is negative. A text denotes an integer key exactly if it is the canonical text of a machine
integer, so that keys and their texts determine each other.
-/

namespace Docblock

namespace Decimal

structure IsNumeral (ds : List Char) : Prop where
  ne_nil : ds ≠ []
  isDigit : ∀ c ∈ ds, c.isDigit = true
  lead : 1 < ds.length → ds.head? ≠ some '0'

/-- The canonical text of an integer has no plus sign, no leading zero and no minus zero. -/
inductive CanonicalText : List Char → Int → Prop where
  | natural {ds : List Char} : IsNumeral ds → CanonicalText ds (Nat.ofDigitChars 10 ds 0)
  | negative {ds : List Char} : IsNumeral ds → ds ≠ ['0'] →
      CanonicalText ('-' :: ds) (-(Nat.ofDigitChars 10 ds 0 : Int))

theorem isNumeral_toDigits (n : Nat) : IsNumeral (Nat.toDigits 10 n) where
  ne_nil := Nat.toDigits_ne_nil
  isDigit _ hc := digits_isDigit hc
  lead hlong := by
    obtain rfl | hpos := Nat.eq_zero_or_pos n
    · simp at hlong
    · exact head?_toDigits hpos

theorem IsNumeral.toDigits_eq {ds : List Char} (h : IsNumeral ds) :
    Nat.toDigits 10 (Nat.ofDigitChars 10 ds 0) = ds :=
  toDigits_ofDigitChars h.ne_nil h.isDigit h.lead

theorem canonicalText_integerText (n : Int) : CanonicalText (integerText n) n := by
  cases n with
  | ofNat m =>
    have h := CanonicalText.natural (isNumeral_toDigits m)
    rw [Nat.ofDigitChars_ten_toDigits] at h
    exact h
  | negSucc m =>
    have h := CanonicalText.negative (isNumeral_toDigits (m + 1)) (toDigits_succ_ne m)
    rw [Nat.ofDigitChars_ten_toDigits] at h
    exact h

theorem CanonicalText.integerText_eq {cs : List Char} {n : Int} (h : CanonicalText cs n) :
    integerText n = cs := by
  cases h with
  | natural hds => exact hds.toDigits_eq
  | @negative ds hds hzero =>
    have hdigits := hds.toDigits_eq
    cases hvalue : Nat.ofDigitChars 10 ds 0 with
    | zero =>
      rw [hvalue, Nat.toDigits_zero] at hdigits
      exact absurd hdigits.symm hzero
    | succ m =>
      rw [hvalue] at hdigits
      change '-' :: Nat.toDigits 10 (m + 1) = _
      rw [hdigits]

/-- An integer has no other canonical text than the one that is written for it. -/
theorem canonicalText_iff {cs : List Char} {n : Int} : CanonicalText cs n ↔ cs = integerText n :=
  ⟨fun h => h.integerText_eq.symm, fun h => h ▸ canonicalText_integerText n⟩

end Decimal

namespace Key

open Decimal

theorem ofString_eq_int_iff {s : String} {index : Int64} :
    ofString s = .int index ↔ CanonicalText s.toList index.toInt := by
  rw [canonicalText_iff]
  constructor
  · intro h
    have hback := toString_ofString s
    rw [h, toString_int] at hback
    rw [← hback, String.toList_ofList]
    rfl
  · intro h
    have hs : s = String.ofList (machineText index) := by
      rw [machineText, ← h, String.ofList_toList]
    rw [hs, ofString_machineText]

/-- Reading a text as a key and writing a key that was read are inverse to each other. The integer
keys among those are exactly the ones of canonical texts of machine integers. -/
theorem ofString_inverse :
    Function.LeftInverse Key.toString ofString ∧
      (∀ index, ofString (String.ofList (machineText index)) = .int index) ∧
      Function.Injective ofString ∧ (Set.range ofString).InjOn Key.toString ∧
      ∀ s n, (∃ index : Int64, index.toInt = n ∧ ofString s = .int index) ↔
        CanonicalText s.toList n ∧ Int64.minValue.toInt ≤ n ∧ n ≤ Int64.maxValue.toInt := by
  have hinverse : Function.LeftInverse Key.toString ofString := toString_ofString
  refine ⟨hinverse, ofString_machineText, hinverse.injective, ?_, fun s n => ?_⟩
  · rintro - ⟨s, rfl⟩ - ⟨t, rfl⟩ hsame
    rw [hinverse s, hinverse t] at hsame
    rw [hsame]
  · constructor
    · rintro ⟨index, rfl, hkey⟩
      exact ⟨ofString_eq_int_iff.1 hkey, index.minValue_le_toInt, index.toInt_le⟩
    · rintro ⟨htext, hmin, hmax⟩
      have hindex : (Int64.ofInt n).toInt = n :=
        Int64.toInt_ofInt_of_le hmin (by
          have htop := Int64.toInt_maxValue
          omega)
      refine ⟨Int64.ofInt n, hindex, ofString_eq_int_iff.2 ?_⟩
      rw [hindex]
      exact htext

example : ofString "-9223372036854775808" = .int Int64.minValue := by decide

example : ofString "9223372036854775808" = .text "9223372036854775808" := by decide

end Key

end Docblock
