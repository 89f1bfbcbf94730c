import Docblock.Proofs.Decimal.CanonicalText
import Docblock.Proofs.Decimal.NearestDouble
import Docblock.Proofs.Schema.TypeText
import Docblock.Proofs.Token.Layout
import Docblock.Schema.Property
import Mathlib.Data.List.TakeWhile

/-!
# Integers against integer texts

An integer is compared with a numeric text as a double. Both sides are rounded to the nearest one,
so that an integer loosely equals the text of another integer exactly if they round to the same
double. Below `2 ^ 53` nothing is rounded and the comparison is exact; above it an enumeration of
integers allows the texts of their neighbours, and the other way round.
-/

namespace Docblock

namespace Value

open Decimal

theorem isBlank_of_isNumeralChar {c : Char} (h : isNumeralChar c = true) :
    Text.isBlank c = false := by
  have hcode : 43 ≤ c.toNat ∧ c.toNat ≤ 101 := by
    simp only [isNumeralChar, Bool.or_eq_true, beq_iff_eq] at h
    obtain ((((hdigit | rfl) | rfl) | rfl) | rfl) | rfl := h
    · have hcode := Lexeme.code_of_isDigit hdigit
      omega
    all_goals decide
  rw [← Bool.not_eq_true]
  intro hblank
  have hascii : Text.isAscii c = true := decide_eq_true (by omega)
  have hlow := Lexeme.code_of_isBlank hblank hascii
  omega

theorem isNumeralChar_of_mem {n : Int64} {c : Char} (hc : c ∈ machineText n) :
    isNumeralChar c = true := by
  have hdigit : c ∈ magnitude n → isNumeralChar c = true := by
    intro hc
    simp [isNumeralChar, digits_isDigit hc]
  obtain htext | ⟨htext, -⟩ := machineText_cases n
  · exact hdigit (htext ▸ hc)
  · rw [htext, List.mem_cons] at hc
    obtain rfl | hc := hc
    · rfl
    · exact hdigit hc

theorem nearest_eq_ofNat {n : Nat} (h : n < 2 ^ 64) : nearest n 0 = Float.ofNat n := by
  have hlength : (Nat.toDigits 10 n).length ≤ 20 :=
    (Nat.length_toDigits_le_iff (by decide) (by decide)).2 (h.trans (by decide))
  unfold nearest
  dsimp only
  by_cases hzero : n = 0
  · rw [if_pos (.inl hzero), hzero]
    rfl
  · rw [if_neg (by omega), if_neg (by omega)]
    rfl

theorem readUnsigned?_toDigits {n : Nat} (h : n < 2 ^ 64) :
    readUnsigned? (Nat.toDigits 10 n) = some (Float.ofNat n) := by
  have hdigits := (isNumeral_toDigits n).isDigit
  have htake : (Nat.toDigits 10 n).takeWhile Char.isDigit = Nat.toDigits 10 n :=
    List.takeWhile_eq_self_iff.2 hdigits
  have hdrop : (Nat.toDigits 10 n).dropWhile Char.isDigit = [] :=
    List.dropWhile_eq_nil_iff.2 hdigits
  have hmantissa : readMantissa? (Nat.toDigits 10 n) = some (Nat.toDigits 10 n, 0, []) := by
    unfold readMantissa?
    dsimp only
    rw [htake, hdrop]
    exact if_neg (by simp [Nat.toDigits_ne_nil])
  unfold readUnsigned?
  rw [hmantissa]
  simp [readExponent?, Nat.ofDigitChars_ten_toDigits, nearest_eq_ofNat h]

theorem readFloat?_toDigits {n : Nat} (h : n < 2 ^ 64) :
    readFloat? (Nat.toDigits 10 n) = some (Float.ofNat n) := by
  have hunsigned {c : Char} {cs : List Char} (hcs : Nat.toDigits 10 n = c :: cs) :
      c.isDigit = true := digits_isDigit (hcs ▸ List.mem_cons_self)
  unfold readFloat?
  split
  next cs hcs => exact absurd (hunsigned hcs) (by decide)
  next cs hcs => exact absurd (hunsigned hcs) (by decide)
  next => exact readUnsigned?_toDigits h

theorem readFloat?_integerText {n : Int} (h : n.natAbs < 2 ^ 64) :
    readFloat? (integerText n) = some (Float.ofInt n) := by
  cases n with
  | ofNat m => exact readFloat?_toDigits h
  | negSucc m =>
    have hread := readUnsigned?_toDigits (n := m + 1) h
    rw [integerText_negSucc, readFloat?, hread]
    rfl

theorem natAbs_toInt_lt (n : Int64) : n.toInt.natAbs < 2 ^ 64 := by
  have hlow := n.le_toInt
  have hhigh := n.toInt_lt
  omega

/-- The text of an integer is read as the double nearest to the integer. -/
theorem numeric?_machineText (n : Int64) :
    numeric? (String.ofList (machineText n)) = some (ofMachine n) := by
  have hnumeral : ∀ c ∈ machineText n, isNumeralChar c = true := fun c hc => isNumeralChar_of_mem hc
  have htrim : Text.trimList Text.isBlank (machineText n) = machineText n :=
    Text.trimList_of_all fun c hc => isBlank_of_isNumeralChar (hnumeral c hc)
  have hne : (machineText n).isEmpty = false := by
    obtain htext | ⟨htext, -⟩ := machineText_cases n
    · rw [htext, List.isEmpty_eq_false_iff]
      exact Nat.toDigits_ne_nil
    · rw [htext]
      rfl
  have hall : (machineText n).all isNumeralChar = true := List.all_eq_true.2 hnumeral
  unfold numeric?
  rw [String.toList_ofList, htrim]
  dsimp only
  rw [if_neg (by simp [hne, hall])]
  exact readFloat?_integerText (natAbs_toInt_lt n)

def SameDouble (n m : Int64) : Prop := roundedInt n.toInt = roundedInt m.toInt

instance (n m : Int64) : Decidable (SameDouble n m) :=
  inferInstanceAs (Decidable (roundedInt n.toInt = roundedInt m.toInt))

theorem beq_ofMachine_iff {n m : Int64} :
    (ofMachine n == ofMachine m) = true ↔ SameDouble n m :=
  (standsFor_ofInt (natAbs_toInt_lt n)).beq_iff (standsFor_ofInt (natAbs_toInt_lt m))

theorem numberEqualsText_integerText {n m : Int64} (spelling : String) :
    numberEqualsText (ofMachine n) spelling (int m).toString = true ↔ SameDouble n m := by
  unfold numberEqualsText
  rw [toString, numeric?_machineText]
  dsimp only
  rw [beq_ofMachine_iff]
  exact eq_comm

theorem int_looselyEquals_integerText {n m : Int64} :
    (int n).looselyEquals (string (int m).toString) = true ↔ SameDouble n m := by
  rw [looselyEquals]
  exact numberEqualsText_integerText _

theorem integerText_looselyEquals_int {n m : Int64} :
    (string (int m).toString).looselyEquals (int n) = true ↔ SameDouble n m := by
  rw [looselyEquals]
  exact numberEqualsText_integerText _

theorem sameDouble_iff_of_short {n m : Int64}
    (h : n.toInt.natAbs < 2 ^ 53 ∨ m.toInt.natAbs < 2 ^ 53) : SameDouble n m ↔ n = m := by
  rw [SameDouble, roundedInt_eq_iff h, Int64.toInt_inj]

/-- An integer and the text of an integer are loosely equal exactly if the same double is nearest to
both integers, and an enumeration allows an integer for the text of another one, or the text for the
integer, in this case only. The double settles integers below `2 ^ 53`; of longer ones only those
within half of their last places share it. -/
theorem looselyEquals_integerText_iff (n m : Int64) (ns : List Int64) (labels : List String) :
    ((int n).looselyEquals (string (int m).toString) = true ↔ SameDouble n m) ∧
    ((string (int m).toString).looselyEquals (int n) = true ↔ SameDouble n m) ∧
    ((⟨ns.map fun k => string (int k).toString, labels⟩ : Enumeration).allows (int n) = true ↔
      ∃ k ∈ ns, SameDouble n k) ∧
    ((⟨ns.map int, labels⟩ : Enumeration).allows (string (int m).toString) = true ↔
      ∃ k ∈ ns, SameDouble k m) ∧
    (n.toInt.natAbs < 2 ^ 53 ∨ m.toInt.natAbs < 2 ^ 53 → (SameDouble n m ↔ n = m)) ∧
    (SameDouble n m → 2 * (n.toInt - m.toInt).natAbs ≤
      lastPlace n.toInt.natAbs + lastPlace m.toInt.natAbs) := by
  have htexts : (⟨ns.map fun k => string (int k).toString, labels⟩ : Enumeration).allows (int n) =
      true ↔ ∃ k ∈ ns, SameDouble n k := by
    simp [Enumeration.allows, integerText_looselyEquals_int]
  have hintegers : (⟨ns.map int, labels⟩ : Enumeration).allows (string (int m).toString) =
      true ↔ ∃ k ∈ ns, SameDouble k m := by
    simp [Enumeration.allows, int_looselyEquals_integerText]
  exact ⟨int_looselyEquals_integerText, integerText_looselyEquals_int, htexts, hintegers,
    sameDouble_iff_of_short, distance_le_of_roundedInt_eq⟩

/-- The largest integer that no other one is taken for, and an enumeration of longer ones. -/
theorem looselyEquals_integerText_iff_short :
    (int 9007199254740991).looselyEquals (string (int 9007199254740992).toString) = false ∧
      (⟨[string (int (-7)).toString, string (int 9223372036854775807).toString], []⟩ :
        Enumeration).allows (int 9223372036854775296) = true := by
  obtain ⟨hequal, -, -, -, hshort, -⟩ :=
    looselyEquals_integerText_iff 9007199254740991 9007199254740992 [] []
  have hdistinct := (hshort (.inl (by decide))).not.2 (by decide)
  obtain ⟨-, -, hallows, -⟩ := looselyEquals_integerText_iff 9223372036854775296 0
    [-7, 9223372036854775807] []
  exact ⟨Bool.eq_false_iff.2 (hequal.not.2 hdistinct),
    hallows.2 ⟨9223372036854775807, by simp, by decide⟩⟩

/-- Half a place above `2 ^ 53` an integer is rounded to its even neighbour. -/
theorem not_looselyEquals_integerText_exact : ¬ ∀ n m : Int64,
    (int n).looselyEquals (string (int m).toString) = true ↔ n = m := by
  intro h
  have hequal : (int 9007199254740993).looselyEquals
      (string (int 9007199254740992).toString) = true :=
    int_looselyEquals_integerText.2 (by decide)
  exact absurd ((h _ _).1 hequal) (by decide)

end Value

end Docblock
