import Docblock.Proofs.Text.LowerCase

/-!
# Lower case of lower case

A text in lower case stays as it is when it is put into lower case again. For the letters of the
table this is seen on two numbers, one with a bit for every capital letter and one with a bit for
every small letter of the table: they have no bit in common.
-/

namespace Docblock.Text

def bits (places : List Nat) : Nat := places.foldr (fun place number => 1 <<< place ||| number) 0

theorem testBit_bits (places : List Nat) (place : Nat) :
    (bits places).testBit place = decide (place ∈ places) := by
  induction places with
  | nil => exact Nat.zero_testBit place
  | cons first rest ih =>
    have hfirst : (bits (first :: rest)).testBit place =
        ((1 <<< first).testBit place || (bits rest).testBit place) := Nat.testBit_or _ _ _
    rw [hfirst, ih, Nat.one_shiftLeft, Nat.testBit_two_pow]
    simp only [List.mem_cons, Bool.decide_or, eq_comm]

/-- A run of capital letters: the first, the last and the step between them, and the small letter of
the first. -/
abbrev Run := Nat × Nat × Nat × Nat

def Run.IsCapital (run : Run) (code : Nat) : Prop :=
  run.1 ≤ code ∧ code ≤ run.2.1 ∧ (code - run.1) % run.2.2.1 = 0

def Run.letters (run : Run) (first : Nat) : List Nat :=
  List.range' first ((run.2.1 - run.1) / run.2.2.1 + 1) run.2.2.1

theorem Run.mem_letters {run : Run} {code : Nat} (h : run.IsCapital code) (first : Nat) :
    first + (code - run.1) ∈ run.letters first := by
  obtain ⟨-, hlast, hstep⟩ := h
  refine List.mem_range'.2 ⟨(code - run.1) / run.2.2.1, ?_, ?_⟩
  · exact Nat.lt_succ_of_le (Nat.div_le_div_right (Nat.sub_le_sub_right hlast run.1))
  · rw [Nat.mul_div_cancel' (Nat.dvd_of_mod_eq_zero hstep)]

/-- The capital letters of the table, and the dotted capital I, which the table leaves out. -/
def capitalCodes : List Nat := 'İ'.toNat :: lowerRuns.flatMap fun run => Run.letters run run.1

def smallCodes : List Nat := lowerRuns.flatMap fun run => Run.letters run run.2.2.2

theorem bits_apart : bits capitalCodes &&& bits smallCodes = 0 := by
  decide +kernel

/-- No letter of the table is capital and small. -/
theorem not_mem_capitalCodes {code : Nat} (h : code ∈ smallCodes) : code ∉ capitalCodes := by
  intro hcapital
  have hnone : (bits capitalCodes &&& bits smallCodes).testBit code = false := by
    rw [bits_apart, Nat.zero_testBit]
  rw [Nat.testBit_and, testBit_bits, testBit_bits, decide_eq_true hcapital, decide_eq_true h]
    at hnone
  cases hnone

theorem mem_capitalCodes {run : Run} (hrun : run ∈ lowerRuns) {code : Nat}
    (h : run.IsCapital code) : code ∈ capitalCodes := by
  have hletter := run.mem_letters h run.1
  rw [Nat.add_sub_cancel' h.1] at hletter
  exact List.mem_cons_of_mem _ (List.mem_flatMap.2 ⟨run, hrun, hletter⟩)

theorem mem_smallCodes {run : Run} (hrun : run ∈ lowerRuns) {code : Nat} (h : run.IsCapital code) :
    run.2.2.2 + (code - run.1) ∈ smallCodes :=
  List.mem_flatMap.2 ⟨run, hrun, run.mem_letters h run.2.2.2⟩

theorem lowerRuns_valid : (lowerRuns.all fun run =>
    (run.2.2.2 + (run.2.1 - run.1)).blt 0xD800 ||
      (Nat.blt 0xDFFF run.2.2.2 && (run.2.2.2 + (run.2.1 - run.1)).blt 0x110000)) = true := by
  decide

theorem toNat_ofNat {code : Nat} (h : code.isValidChar) : (Char.ofNat code).toNat = code := by
  rw [Char.ofNat, dif_pos h]
  rfl

theorem toNat_small {run : Run} (hrun : run ∈ lowerRuns) {code : Nat} (h : run.IsCapital code) :
    (Char.ofNat (run.2.2.2 + (code - run.1))).toNat = run.2.2.2 + (code - run.1) := by
  have hvalid := List.all_eq_true.1 lowerRuns_valid run hrun
  simp only [Bool.or_eq_true, Bool.and_eq_true, Nat.blt_eq] at hvalid
  obtain ⟨hfirst, hlast, -⟩ := h
  refine toNat_ofNat ?_
  unfold Nat.isValidChar
  omega

theorem find?_lowerRuns_eq_none_iff (c : Char) :
    (lowerRuns.find? fun (first, last, step, _) =>
      first ≤ c.toNat && c.toNat ≤ last && (c.toNat - first) % step == 0) = none ↔
      ∀ run ∈ lowerRuns, ¬ Run.IsCapital run c.toNat := by
  simp [List.find?_eq_none, Run.IsCapital]

theorem isUpper_eq_false_of_lt {c : Char} (h : 'Z'.toNat < c.toNat) : c.isUpper = false := by
  refine decide_eq_false ?_
  rintro ⟨-, hlast⟩
  exact absurd (UInt32.le_iff_toNat_le.1 hlast) (Nat.not_le_of_lt h)

theorem toLower_of_isUpper_eq_false {c : Char} (h : c.isUpper = false) : c.toLower = c :=
  dif_neg fun hupper => Bool.eq_false_iff.1 h (decide_eq_true hupper)

theorem toNat_toLower (c : Char) :
    c.toLower.toNat = if c.isUpper then c.toNat + 32 else c.toNat := by
  unfold Char.toLower
  split
  next hupper =>
    have hcapital : c.isUpper = true := decide_eq_true hupper
    have hlast : c.val.toNat ≤ 90 := UInt32.le_iff_toNat_le.1 hupper.2
    have hoffset : ('a'.val - 'A'.val).toNat = 32 := rfl
    have hvalue : (c.val + ('a'.val - 'A'.val)).toNat = c.val.toNat + 32 := by
      rw [UInt32.toNat_add, hoffset]
      omega
    rw [hcapital]
    exact hvalue
  next hother =>
    have hcapital : c.isUpper = false := decide_eq_false hother
    rw [hcapital]
    rfl

theorem isUpper_toLower (c : Char) : c.toLower.isUpper = false := by
  by_cases hupper : c.isUpper = true
  · have hfirst : 65 ≤ c.toNat := UInt32.le_iff_toNat_le.1 (of_decide_eq_true hupper).1
    have hlast : 'Z'.toNat = 90 := rfl
    refine isUpper_eq_false_of_lt ?_
    rw [toNat_toLower, if_pos hupper]
    omega
  · rw [toLower_of_isUpper_eq_false (Bool.eq_false_iff.2 hupper)]
    exact Bool.eq_false_iff.2 hupper

theorem isAscii_toLower {c : Char} (h : isAscii c = true) : isAscii c.toLower = true := by
  unfold isAscii at h ⊢
  rw [decide_eq_true_eq] at h ⊢
  rw [toNat_toLower]
  split
  next hupper =>
    have hlast : c.toNat ≤ 90 := UInt32.le_iff_toNat_le.1 (of_decide_eq_true hupper).2
    omega
  next => exact h

/-- A character that is no capital letter of any kind stays as it is. -/
theorem lowerChar_of_not_isCapital {c : Char} (hupper : c.isUpper = false) (hdotted : c ≠ 'İ')
    (h : ∀ run ∈ lowerRuns, ¬ Run.IsCapital run c.toNat) : lowerChar c = [c] := by
  unfold lowerChar
  split
  · rw [toLower_of_isUpper_eq_false hupper]
  · rw [(find?_lowerRuns_eq_none_iff c).2 h]

/-- The small letter of a capital letter stays as it is. -/
theorem lowerChar_small {run : Run} (hrun : run ∈ lowerRuns) {code : Nat} (h : run.IsCapital code) :
    lowerChar (Char.ofNat (run.2.2.2 + (code - run.1))) =
      [Char.ofNat (run.2.2.2 + (code - run.1))] := by
  have hcode := toNat_small hrun h
  refine lowerChar_of_not_isCapital ?_ ?_ fun other hother => ?_
  · have habove := lowerRuns_above_backslash run hrun
    refine isUpper_eq_false_of_lt ?_
    rw [hcode]
    exact Nat.lt_of_lt_of_le (Nat.lt_trans (by decide) habove) (Nat.le_add_right _ _)
  · intro hdotted
    refine not_mem_capitalCodes (mem_smallCodes hrun h) ?_
    rw [← hcode, hdotted]
    exact List.mem_cons_self
  · rw [hcode]
    exact fun hcapital =>
      not_mem_capitalCodes (mem_smallCodes hrun h) (mem_capitalCodes hother hcapital)

/-- The characters that stand for the dotted capital I stay as they are, and so do both small forms
of the capital sigma. -/
theorem lowerChar_special : (lowerChar 'i' = ['i'] ∧ lowerChar '\u0307' = ['\u0307']) ∧
    (lowerChar 'σ' = ['σ'] ∧ lowerChar 'ς' = ['ς']) ∧ lowerChar 'Σ' = ['σ'] := by
  decide

/-- What a character becomes in lower case stays as it is. -/
theorem lowerChar_of_mem_lowerChar {c d : Char} (h : d ∈ lowerChar c) : lowerChar d = [d] := by
  unfold lowerChar at h
  split at h
  next hascii =>
    rw [List.mem_singleton] at h
    subst h
    rw [lowerChar_of_isAscii (isAscii_toLower hascii),
      toLower_of_isUpper_eq_false (isUpper_toLower c)]
  next hascii =>
    split at h
    next hdotted =>
      simp only [List.mem_cons, List.not_mem_nil, or_false] at h
      rcases h with rfl | rfl
      · exact lowerChar_special.1.1
      · exact lowerChar_special.1.2
    next hdotted =>
      split at h
      next first last step small hfound =>
        rw [List.mem_singleton] at h
        subst h
        have hrun := List.mem_of_find?_eq_some hfound
        have hcapital := List.find?_some hfound
        simp only [Bool.and_eq_true, decide_eq_true_eq, beq_iff_eq] at hcapital
        exact lowerChar_small hrun ⟨hcapital.1.1, hcapital.1.2, hcapital.2⟩
      next hnone =>
        rw [List.mem_singleton] at h
        subst h
        unfold lowerChar
        rw [if_neg hascii, if_neg hdotted, hnone]

theorem sigma_not_mem_lowerChar (c : Char) : 'Σ' ∉ lowerChar c := by
  intro h
  have hkept := lowerChar_of_mem_lowerChar h
  rw [lowerChar_special.2.2] at hkept
  cases hkept

theorem lowerAfter_eq_self {cs : List Char} (h : ∀ c ∈ cs, c ≠ 'Σ' ∧ lowerChar c = [c])
    (before : List Char) : lowerAfter before cs = cs := by
  induction cs generalizing before with
  | nil => rfl
  | cons c cs ih =>
    obtain ⟨hsigma, hkept⟩ := h c List.mem_cons_self
    rw [lowerAfter, if_neg hsigma, hkept, ih fun d hd => h d (List.mem_cons_of_mem c hd)]
    rfl

theorem kept_of_mem_lowerAfter {cs before : List Char} {d : Char} (h : d ∈ lowerAfter before cs) :
    d ≠ 'Σ' ∧ lowerChar d = [d] := by
  induction cs generalizing before with
  | nil => cases h
  | cons c cs ih =>
    rw [lowerAfter, List.mem_append] at h
    rcases h with h | h
    · split at h
      · split at h
        · rw [List.mem_singleton] at h
          subst h
          exact ⟨by decide, lowerChar_special.2.1.2⟩
        · rw [List.mem_singleton] at h
          subst h
          exact ⟨by decide, lowerChar_special.2.1.1⟩
      · refine ⟨?_, lowerChar_of_mem_lowerChar h⟩
        rintro rfl
        exact sigma_not_mem_lowerChar c h
    · exact ih h

/-- A text in lower case stays as it is in lower case. -/
theorem lower_lower (s : String) : lower (lower s) = lower s := by
  unfold lower
  rw [String.toList_ofList, lowerAfter_eq_self fun d hd => kept_of_mem_lowerAfter hd]

end Docblock.Text
