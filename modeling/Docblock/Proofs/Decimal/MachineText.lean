import Docblock.Key

/-!
# Machine integers read back

The decimal text of a machine integer is read back as that integer, as a literal and as a key. A
text without sign or leading zeros is the decimal text of what it is read as, so no two texts denote
the same key.
-/

namespace Docblock

namespace Decimal

theorem digits_isDigit {n : Nat} {c : Char} (h : c ∈ Nat.toDigits 10 n) : c.isDigit = true :=
  Nat.isDigit_of_mem_toDigits (by decide) (by decide) h

theorem head?_toDigits {n : Nat} (hn : 0 < n) : (Nat.toDigits 10 n).head? ≠ some '0' := by
  induction n using Nat.strongRecOn with
  | ind n ih =>
    by_cases hsmall : n < 10
    · rw [Nat.toDigits_of_lt_base hsmall]
      intro hzero
      have hdigit : Nat.digitChar n = '0' := Option.some.inj hzero
      have hcases : ∀ d < 10, Nat.digitChar d = '0' → d = 0 := by decide
      have hnone := hcases n hsmall hdigit
      omega
    · have hle : 10 ≤ n := Nat.le_of_not_lt hsmall
      have hfirst := ih (n / 10) (by omega) (by omega)
      rw [Nat.toDigits_of_base_le (by decide) hle, List.head?_append]
      cases hdigits : Nat.toDigits 10 (n / 10) with
      | nil => exact absurd hdigits Nat.toDigits_ne_nil
      | cons c cs =>
        rw [hdigits] at hfirst
        exact hfirst

theorem toDigits_succ_ne (m : Nat) : Nat.toDigits 10 (m + 1) ≠ ['0'] := by
  intro hzero
  have hhead := head?_toDigits (Nat.succ_pos m)
  rw [hzero] at hhead
  exact hhead rfl

theorem digitChar_of_isDigit {c : Char} (h : c.isDigit = true) :
    Nat.digitChar (c.toNat - '0'.toNat) = c ∧ c.toNat - '0'.toNat < 10 := by
  obtain ⟨hlow, hhigh⟩ := (Bool.and_eq_true _ _).mp h
  have hlow : 48 ≤ c.toNat := UInt32.le_iff_toNat_le.1 (of_decide_eq_true hlow)
  have hhigh : c.toNat ≤ 57 := UInt32.le_iff_toNat_le.1 (of_decide_eq_true hhigh)
  have hzero : '0'.toNat = 48 := rfl
  have hcodes : ∀ d < 10, (Nat.digitChar d).toNat = d + 48 := by decide
  have hsmall : c.toNat - '0'.toNat < 10 := by omega
  have hcode := hcodes _ hsmall
  refine ⟨Char.toNat_inj.1 ?_, hsmall⟩
  omega

/-- Digits without a leading zero are the digits of the number they write. -/
theorem toDigits_ofDigitChars {ds : List Char} (hne : ds ≠ []) (hall : ∀ c ∈ ds, c.isDigit = true)
    (hlead : 1 < ds.length → ds.head? ≠ some '0') :
    Nat.toDigits 10 (Nat.ofDigitChars 10 ds 0) = ds := by
  -- The last digit is the lowest one, so the induction is from the right.
  obtain ⟨rs, rfl⟩ : ∃ rs, ds = rs.reverse := ⟨ds.reverse, (List.reverse_reverse ds).symm⟩
  induction rs with
  | nil => exact absurd rfl hne
  | cons c rs ih =>
    rw [List.reverse_cons] at hall hlead ⊢
    obtain ⟨hchar, hsmall⟩ := digitChar_of_isDigit (hall c (by simp))
    have hlast : Nat.ofDigitChars 10 (rs.reverse ++ [c]) 0 =
        10 * Nat.ofDigitChars 10 rs.reverse 0 + (c.toNat - '0'.toNat) := by
      rw [Nat.ofDigitChars_append, Nat.ofDigitChars_cons, Nat.ofDigitChars_nil]
    cases hbefore : rs.reverse with
    | nil =>
      rw [hbefore] at hlast
      rw [hlast, Nat.ofDigitChars_nil, Nat.mul_zero, Nat.zero_add,
        Nat.toDigits_of_lt_base hsmall, hchar]
      rfl
    | cons d ds =>
      rw [hbefore] at ih hall hlead hlast
      have hfirst : d ≠ '0' := by
        intro hzero
        apply hlead
        · simp
        · rw [hzero]
          rfl
      have hdigits := ih (List.cons_ne_nil d ds)
        (fun e he => hall e (List.mem_append_left [c] he))
        (fun _ hzero => hfirst (Option.some.inj hzero))
      have hpositive : 0 < Nat.ofDigitChars 10 (d :: ds) 0 := by
        apply Nat.pos_of_ne_zero
        intro hzero
        rw [hzero, Nat.toDigits_zero] at hdigits
        exact hfirst (List.cons.inj hdigits).1.symm
      rw [hlast, ← Nat.toDigits_append_toDigits (by decide) hpositive hsmall, hdigits,
        Nat.toDigits_of_lt_base hsmall, hchar]

theorem toInt_of_readMachine? {cs : List Char} {n : Int64} (h : readMachine? cs = some n) :
    readInteger? cs = some n.toInt := by
  unfold readMachine? at h
  cases hread : readInteger? cs with
  | none =>
    rw [hread] at h
    cases h
  | some k =>
    rw [hread, Option.bind_some] at h
    split at h
    · next hfits =>
      obtain rfl := Option.some.inj h
      unfold fits at hfits
      rw [Bool.and_eq_true, decide_eq_true_eq, decide_eq_true_eq] at hfits
      rw [Int64.toInt_ofInt_of_le hfits.1 (by
        have hmax := Int64.toInt_maxValue
        omega)]
    · cases h

theorem readInteger?_digits (n : Nat) :
    readInteger? (Nat.toDigits 10 n) = some (n : Int) := by
  have hread := readDigits?_toDigits n
  unfold readInteger?
  split
  · next cs hcs =>
    have hminus : '-' ∈ Nat.toDigits 10 n := by
      rw [hcs]
      exact List.mem_cons_self
    exact absurd (digits_isDigit hminus) (by decide)
  · next cs hcs =>
    have hplus : '+' ∈ Nat.toDigits 10 n := by
      rw [hcs]
      exact List.mem_cons_self
    exact absurd (digits_isDigit hplus) (by decide)
  · rw [hread]
    rfl

theorem readInteger?_integerText (n : Int) : readInteger? (integerText n) = some n := by
  cases n with
  | ofNat m => exact readInteger?_digits m
  | negSucc m =>
    rw [integerText_negSucc, readInteger?, readDigits?_toDigits]
    rfl

theorem fits_toInt (n : Int64) : fits n.toInt = true := by
  unfold fits
  rw [Bool.and_eq_true]
  exact ⟨decide_eq_true n.minValue_le_toInt, decide_eq_true n.toInt_le⟩

theorem readMachine?_machineText (n : Int64) : readMachine? (machineText n) = some n := by
  unfold readMachine? machineText
  rw [readInteger?_integerText, Option.bind_some, fits_toInt, if_pos rfl, Int64.ofInt_toInt]

theorem readSaturating_machineText (n : Int64) : readSaturating (machineText n) = n := by
  unfold readSaturating
  rw [readMachine?_machineText]

def magnitude (n : Int64) : List Char := Nat.toDigits 10 n.toInt.natAbs

theorem machineText_cases (n : Int64) :
    machineText n = magnitude n ∨ (machineText n = '-' :: magnitude n ∧ magnitude n ≠ ['0']) := by
  unfold machineText magnitude
  cases hn : n.toInt with
  | ofNat m => exact .inl rfl
  | negSucc m => exact .inr ⟨rfl, toDigits_succ_ne m⟩

end Decimal

namespace Key

theorem canonicalInteger?_machineText (n : Int64) :
    canonicalInteger? (Decimal.machineText n) = some n := by
  have hread := Decimal.readMachine?_machineText n
  have hempty : (Decimal.magnitude n).isEmpty = false := by
    simp [Decimal.magnitude]
  have hall : (Decimal.magnitude n).all Char.isDigit = true := by
    rw [List.all_eq_true]
    exact fun c hc => Decimal.digits_isDigit hc
  have hlead : (1 < (Decimal.magnitude n).length && (Decimal.magnitude n).head? == some '0') =
      false := by
    by_cases hzero : n.toInt.natAbs = 0
    · simp [Decimal.magnitude, hzero]
    · have hhead := Decimal.head?_toDigits (Nat.pos_of_ne_zero hzero)
      simp [Decimal.magnitude, hhead]
  unfold canonicalInteger?
  obtain htext | ⟨htext, hnonzero⟩ := Decimal.machineText_cases n
  · have hfirst : (Decimal.magnitude n).head? ≠ some '-' := by
      intro hminus
      have hdigit := Decimal.digits_isDigit (List.mem_of_mem_head? hminus)
      exact absurd hdigit (by decide)
    rw [htext] at hread ⊢
    dsimp only
    split
    · next rest hrest =>
      rw [hrest] at hfirst
      exact absurd rfl hfirst
    · simp only [hempty, hall, hlead, Bool.not_true, Bool.or_self, Bool.false_eq_true, if_false]
      simp [hfirst, hread]
  · rw [htext] at hread ⊢
    simp only [hempty, hall, hlead, Bool.not_true, Bool.or_self, Bool.false_eq_true, if_false]
    simp [hnonzero, hread]

theorem ofString_machineText (n : Int64) :
    ofString (String.ofList (Decimal.machineText n)) = .int n := by
  unfold ofString
  rw [String.toList_ofList, canonicalInteger?_machineText]

theorem digits_of_guards {cs ds : List Char} {n : Int64}
    (h : (if ds.isEmpty || !ds.all Char.isDigit then none
      else if 1 < ds.length && ds.head? == some '0' then none
      else if cs.head? == some '-' && ds == ['0'] then none
      else Decimal.readMachine? cs) = some n) :
    ds ≠ [] ∧ (∀ c ∈ ds, c.isDigit = true) ∧ (1 < ds.length → ds.head? ≠ some '0') ∧
      (cs.head? = some '-' → ds ≠ ['0']) ∧ Decimal.readMachine? cs = some n := by
  by_cases hdigit : (ds.isEmpty || !ds.all Char.isDigit) = true
  · rw [if_pos hdigit] at h
    cases h
  · rw [if_neg hdigit] at h
    by_cases hlead : (1 < ds.length && ds.head? == some '0') = true
    · rw [if_pos hlead] at h
      cases h
    · rw [if_neg hlead] at h
      by_cases hzero : (cs.head? == some '-' && ds == ['0']) = true
      · rw [if_pos hzero] at h
        cases h
      · rw [if_neg hzero] at h
        simp only [Bool.or_eq_true, Bool.not_eq_true', not_or, Bool.not_eq_false,
          List.all_eq_true, List.isEmpty_iff] at hdigit
        refine ⟨hdigit.1, hdigit.2, ?_, ?_, h⟩
        · intro hlength hhead
          simp [hlength, hhead] at hlead
        · intro hhead hdigits
          simp [hhead, hdigits] at hzero

theorem digits_of_signed {ds : List Char} {n : Int64} (h : canonicalInteger? ('-' :: ds) = some n) :
    ds ≠ [] ∧ (∀ c ∈ ds, c.isDigit = true) ∧ (1 < ds.length → ds.head? ≠ some '0') ∧
      (('-' :: ds).head? = some '-' → ds ≠ ['0']) ∧ Decimal.readMachine? ('-' :: ds) = some n :=
  digits_of_guards h

def unsigned (cs : List Char) : List Char :=
  match cs with
  | '-' :: rest => rest
  | _ => cs

theorem unsigned_eq_self {cs : List Char} (h : cs.head? ≠ some '-') : unsigned cs = cs := by
  unfold unsigned
  split
  · exact absurd rfl h
  · rfl

theorem digits_of_unsigned {cs : List Char} {n : Int64} (hhead : cs.head? ≠ some '-')
    (h : canonicalInteger? cs = some n) :
    cs ≠ [] ∧ (∀ c ∈ cs, c.isDigit = true) ∧ (1 < cs.length → cs.head? ≠ some '0') ∧
      (cs.head? = some '-' → cs ≠ ['0']) ∧ Decimal.readMachine? cs = some n := by
  have hall := @digits_of_guards cs (unsigned cs) n h
  rw [unsigned_eq_self hhead] at hall
  exact hall

/-- A text that is read as a canonical integer is the text of that integer. -/
theorem machineText_of_canonicalInteger? {cs : List Char} {n : Int64}
    (h : canonicalInteger? cs = some n) : Decimal.machineText n = cs := by
  have htext {ds : List Char} (hne : ds ≠ []) (hall : ∀ c ∈ ds, c.isDigit = true) :
      Decimal.readDigits? ds = some (Nat.ofDigitChars 10 ds 0) := by
    unfold Decimal.readDigits?
    rw [if_pos ⟨hne, List.all_eq_true.2 hall⟩]
  unfold Decimal.machineText
  by_cases hminus : cs.head? = some '-'
  · obtain ⟨ds, rfl⟩ : ∃ ds, cs = '-' :: ds := by
      cases cs with
      | nil => cases hminus
      | cons c ds => exact ⟨ds, by rw [Option.some.inj hminus]⟩
    obtain ⟨hne, hall, hlead, hzero, hread⟩ := digits_of_signed h
    have hvalue := Decimal.toInt_of_readMachine? hread
    have hdigits := Decimal.toDigits_ofDigitChars hne hall hlead
    rw [Decimal.readInteger?, htext hne hall] at hvalue
    have hint : -((Nat.ofDigitChars 10 ds 0 : Nat) : Int) = n.toInt := Option.some.inj hvalue
    cases hnat : Nat.ofDigitChars 10 ds 0 with
    | zero =>
      rw [hnat, Nat.toDigits_zero] at hdigits
      exact absurd hdigits.symm (hzero rfl)
    | succ m =>
      rw [hnat] at hint hdigits
      rw [← hint]
      change '-' :: Nat.toDigits 10 (m + 1) = _
      rw [hdigits]
  · obtain ⟨hne, hall, hlead, -, hread⟩ := digits_of_unsigned hminus h
    have hvalue := Decimal.toInt_of_readMachine? hread
    have hdigits := Decimal.toDigits_ofDigitChars hne hall hlead
    have hint : Int.ofNat (Nat.ofDigitChars 10 cs 0) = n.toInt := by
      unfold Decimal.readInteger? at hvalue
      split at hvalue
      · exact absurd rfl hminus
      · exact absurd (hall '+' List.mem_cons_self) (by decide)
      · rw [htext hne hall] at hvalue
        exact Option.some.inj hvalue
    rw [← hint, Decimal.integerText_ofNat, hdigits]

theorem toString_ofString (s : String) : (ofString s).toString = s := by
  unfold ofString
  cases hindex : canonicalInteger? s.toList with
  | none => rfl
  | some index =>
    dsimp only
    rw [toString_int, machineText_of_canonicalInteger? hindex, String.ofList_toList]

theorem ofString_injective {s t : String} (h : ofString s = ofString t) : s = t := by
  rw [← toString_ofString s, h, toString_ofString]

end Key

end Docblock
