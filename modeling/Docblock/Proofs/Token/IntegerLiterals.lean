import Docblock.Proofs.Decimal.MachineText
import Docblock.Proofs.Token.LongestMatch
import Mathlib.Data.Nat.Digits.Lemmas

/-!
# Integer literals

An integer literal is a whole number in decimal: digits, of which any number may be leading zeros,
perhaps behind a sign. It is read as the machine integer nearest to that number. A literal that does
not fit is the only one that is not read digit by digit, and it saturates in the direction of its
sign.
-/

namespace Docblock

namespace Decimal

variable {cs ds : List Char} {n : Int}

/-- The number that digits write, each of them counted by its place. -/
def placeValue (ds : List Char) : Nat :=
  Nat.ofDigits 10 (ds.reverse.map fun c => c.toNat - '0'.toNat)

def IsDigits (ds : List Char) : Prop := ds ≠ [] ∧ ∀ c ∈ ds, c.isDigit = true

inductive Denotes : List Char → Int → Prop where
  | bare {ds : List Char} : IsDigits ds → Denotes ds (placeValue ds)
  | plus {ds : List Char} : IsDigits ds → Denotes ('+' :: ds) (placeValue ds)
  | minus {ds : List Char} : IsDigits ds → Denotes ('-' :: ds) (-placeValue ds)

theorem placeValue_cons (c : Char) (cs : List Char) :
    placeValue (c :: cs) = 10 ^ cs.length * (c.toNat - '0'.toNat) + placeValue cs := by
  unfold placeValue
  rw [List.reverse_cons, List.map_append, Nat.ofDigits_append]
  simp [Nat.add_comm]

theorem ofDigitChars_eq_placeValue (ds : List Char) :
    Nat.ofDigitChars 10 ds 0 = placeValue ds := by
  induction ds with
  | nil => rfl
  | cons c cs ih =>
    rw [Nat.ofDigitChars_cons, Nat.ofDigitChars_eq_ofDigitChars_zero, ih, placeValue_cons,
      Nat.mul_zero, Nat.zero_add]

theorem readDigits?_eq (h : IsDigits ds) : readDigits? ds = some (placeValue ds) := by
  unfold readDigits?
  rw [if_pos ⟨h.1, List.all_eq_true.2 h.2⟩, ofDigitChars_eq_placeValue]

theorem IsDigits.not_mem (h : IsDigits ds) {c : Char} (hc : c.isDigit = false) : c ∉ ds := by
  intro hmem
  have hdigit := h.2 c hmem
  simp [hc] at hdigit

theorem Denotes.readInteger?_eq (h : Denotes cs n) : readInteger? cs = some n := by
  cases h with
  | @bare ds hds =>
    unfold readInteger?
    split
    · exact absurd List.mem_cons_self (hds.not_mem (c := '-') (by decide))
    · exact absurd List.mem_cons_self (hds.not_mem (c := '+') (by decide))
    · rw [readDigits?_eq hds]
      rfl
  | plus hds =>
    rw [readInteger?, readDigits?_eq hds]
    rfl
  | minus hds =>
    rw [readInteger?, readDigits?_eq hds]
    rfl

theorem Denotes.unique {k : Int} (h : Denotes cs n) (hk : Denotes cs k) : k = n := by
  have hread := h.readInteger?_eq
  rw [hk.readInteger?_eq] at hread
  exact Option.some.inj hread

/-- Only behind a minus a number is negative, and there it is not positive. -/
theorem Denotes.sign_cases (h : Denotes cs n) :
    cs.head? = some '-' ∧ n ≤ 0 ∨ cs.head? ≠ some '-' ∧ 0 ≤ n := by
  cases h with
  | bare hds =>
    right
    refine ⟨fun hhead => ?_, Int.natCast_nonneg _⟩
    exact hds.not_mem (by decide) (List.mem_of_mem_head? hhead)
  | plus hds => exact .inr ⟨by simp, Int.natCast_nonneg _⟩
  | minus hds => exact .inl ⟨rfl, by omega⟩

theorem fits_iff : fits n = true ↔ -2 ^ 63 ≤ n ∧ n ≤ 2 ^ 63 - 1 := by
  unfold fits
  rw [Bool.and_eq_true, decide_eq_true_eq, decide_eq_true_eq, Int64.toInt_minValue,
    Int64.toInt_maxValue]

theorem Denotes.readMachine?_eq (h : Denotes cs n) :
    readMachine? cs = if fits n then some (Int64.ofInt n) else none := by
  unfold readMachine?
  rw [h.readInteger?_eq, Option.bind_some]

theorem Denotes.readMachine?_eq_none_iff (h : Denotes cs n) :
    readMachine? cs = none ↔ n < -2 ^ 63 ∨ 2 ^ 63 - 1 < n := by
  rw [h.readMachine?_eq]
  by_cases hfits : fits n = true
  · rw [if_pos hfits]
    rw [fits_iff] at hfits
    simp only [reduceCtorEq, false_iff]
    omega
  · rw [if_neg hfits]
    rw [fits_iff] at hfits
    simp only [true_iff]
    omega

/-- A number that does not fit saturates in the direction of its sign. -/
theorem Denotes.readSaturating_of_none (h : Denotes cs n) (hnone : readMachine? cs = none) :
    readSaturating cs = if n < 0 then Int64.minValue else Int64.maxValue := by
  have hlarge := h.readMachine?_eq_none_iff.1 hnone
  unfold readSaturating
  rw [hnone]
  dsimp only
  obtain ⟨hhead, hsign⟩ | ⟨hhead, hsign⟩ := h.sign_cases
  · rw [if_pos hhead, if_pos (by omega)]
  · rw [if_neg hhead, if_neg (by omega)]

theorem Denotes.toInt_readSaturating (h : Denotes cs n) :
    (readSaturating cs).toInt = max (-2 ^ 63) (min n (2 ^ 63 - 1)) := by
  cases hread : readMachine? cs with
  | none =>
    have hlarge := h.readMachine?_eq_none_iff.1 hread
    rw [h.readSaturating_of_none hread]
    split
    · rw [Int64.toInt_minValue]
      omega
    · rw [Int64.toInt_maxValue]
      omega
  | some k =>
    have hvalue := toInt_of_readMachine? hread
    rw [h.readInteger?_eq] at hvalue
    obtain rfl := Option.some.inj hvalue
    have hmin := k.minValue_le_toInt
    have hmax := k.toInt_le
    rw [Int64.toInt_minValue] at hmin
    rw [Int64.toInt_maxValue] at hmax
    unfold readSaturating
    rw [hread]
    dsimp only
    omega

end Decimal

namespace Lexeme

open Decimal

theorem isDigits_of_mem {w : List Char} (h : w ∈ digitRuns) : IsDigits w := by
  obtain ⟨hstart, hall⟩ := mem_digitRuns.1 h
  refine ⟨?_, hall⟩
  rintro rfl
  cases hstart

theorem exists_denotes {s : List Char} (h : s ∈ wholeNumbers) : ∃ n, Denotes s n := by
  obtain ⟨s, hsign, w, hw, rfl⟩ := Language.mem_mul.1 h
  have hdigits := isDigits_of_mem hw
  obtain rfl | ⟨c, hc, rfl⟩ := (Language.mem_add _ _ _).1 hsign
  · exact ⟨_, .bare hdigits⟩
  · obtain rfl | rfl : c = '+' ∨ c = '-' := by simpa [isSign] using hc
    · exact ⟨_, .plus hdigits⟩
    · exact ⟨_, .minus hdigits⟩

theorem mem_wholeNumbers_of_kind {c : Char} {cs : List Char} (h : (read c cs).kind = .integer) :
    (read c cs).text ∈ wholeNumbers := by
  by_cases hnumber : StartsNumber (c :: cs)
  · obtain ⟨hread, hdigit⟩ := read_of_startsNumber hnumber
    rw [hread] at h ⊢
    obtain ⟨-, hmem⟩ | ⟨hkind, -⟩ := kind_number_cases hdigit
    · exact hmem
    · rw [h] at hkind
      cases hkind
  by_cases hname : StartsName (c :: cs)
  · have hclass : (name c cs).kind.isClassPart = true := isClassPart_nameKind (c :: (nameTail cs).1)
    rw [← (read_of_startsName hname).1, h] at hclass
    cases hclass
  obtain ⟨-, hread⟩ | hread := read_of_neither hnumber hname
  · rw [hread] at h
    unfold string at h
    split at h <;> cases h
  · rw [hread] at h
    exact absurd h (punctuation_ne c).2.1

end Lexeme

namespace Token

open Decimal

/-- The text of an integer token is a whole number in decimal, and it is read as that number,
clamped to the machine integers. It is read digit by digit unless it is out of range, and then it
saturates in the direction of its sign. -/
theorem readSaturating_eq_clamped {input : String} {t : Token} (ht : t ∈ scan input)
    (hkind : t.kind = .integer) : ∃ n : Int, (∀ k, Denotes t.text.toList k ↔ k = n) ∧
      (readSaturating t.text.toList).toInt = max (-2 ^ 63) (min n (2 ^ 63 - 1)) ∧
      (readMachine? t.text.toList = none ↔ n < -2 ^ 63 ∨ 2 ^ 63 - 1 < n) ∧
      (readMachine? t.text.toList = none →
        readSaturating t.text.toList = if n < 0 then Int64.minValue else Int64.maxValue) := by
  obtain ⟨before, c, rest, -, rfl⟩ := exists_read_of_mem_scanFrom ht
  have htext : (ofLexeme (Position.start.afterAll before) (Lexeme.read c rest)).text.toList =
      (Lexeme.read c rest).text := String.toList_ofList
  rw [htext]
  obtain ⟨n, hn⟩ := Lexeme.exists_denotes (Lexeme.mem_wholeNumbers_of_kind hkind)
  refine ⟨n, fun k => ⟨hn.unique, ?_⟩, hn.toInt_readSaturating, hn.readMachine?_eq_none_iff,
    hn.readSaturating_of_none⟩
  rintro rfl
  exact hn

/-- A literal with leading zeros, one below the smallest machine integer. -/
theorem readSaturating_eq_clamped_below : ∃ n : Int,
    (∀ k, Denotes "-0009223372036854775809".toList k ↔ k = n) ∧
      (readSaturating "-0009223372036854775809".toList).toInt = max (-2 ^ 63) (min n (2 ^ 63 - 1)) ∧
      readMachine? "-0009223372036854775809".toList = none := by
  have hmem : ⟨.integer, "-0009223372036854775809", .start, 23⟩ ∈
      scan "-0009223372036854775809" := by decide
  obtain ⟨n, hdenotes, hvalue, -, -⟩ := readSaturating_eq_clamped hmem rfl
  exact ⟨n, hdenotes, hvalue, by decide⟩

end Token

end Docblock
