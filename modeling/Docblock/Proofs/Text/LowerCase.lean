import Docblock.Text.LowerCase

/-!
# Lower case of separated texts

Only the capital sigma looks at the characters around it, and it does not look past a backslash,
which is no part of a word. So a text that is separated by backslashes is put into lower case
segment by segment. Nothing but a backslash becomes one.
-/

namespace Docblock.Text

/-- A backslash is neither cased nor passed over, so that nothing behind it is met. -/
theorem meetsCased_append_backslash (cs ds : List Char) :
    meetsCased (cs ++ '\\' :: ds) = meetsCased cs := by
  have hcounts : inRanges caseIgnorableRanges '\\' = false := by decide +kernel
  have huncased : inRanges casedRanges '\\' = false := by decide
  induction cs with
  | nil => simp [meetsCased, hcounts, huncased]
  | cons c cs ih =>
    by_cases hignored : inRanges caseIgnorableRanges c = true
    · simpa [meetsCased, hignored] using ih
    · simp [meetsCased, hignored]

theorem lowerAfter_behind_backslash (before others cs : List Char) :
    lowerAfter (before ++ '\\' :: others) cs = lowerAfter before cs := by
  induction cs generalizing before with
  | nil => rfl
  | cons c cs ih =>
    have hrest := ih (c :: before)
    rw [List.cons_append] at hrest
    simp only [lowerAfter, meetsCased_append_backslash, hrest]

/-- What stands in front of a backslash and what stands behind it are put into lower case apart. -/
theorem lowerAfter_append_backslash (before cs ds : List Char) :
    lowerAfter before (cs ++ '\\' :: ds) = lowerAfter before cs ++ '\\' :: lowerAfter [] ds := by
  induction cs generalizing before with
  | nil =>
    have hkept : lowerChar '\\' = ['\\'] := by decide
    have hrest : lowerAfter ('\\' :: before) ds = lowerAfter [] ds :=
      lowerAfter_behind_backslash [] before ds
    simp [lowerAfter, hkept, hrest]
  | cons c cs ih =>
    simp only [List.cons_append, lowerAfter, meetsCased_append_backslash, ih, List.append_assoc]

theorem ofNat_ne_backslash {code : Nat} (h : '\\'.toNat < code) : Char.ofNat code ≠ '\\' := by
  intro hsame
  have hcode : (Char.ofNat code).toNat = '\\'.toNat := congrArg Char.toNat hsame
  by_cases hvalid : code.isValidChar
  · rw [Char.ofNat, dif_pos hvalid] at hcode
    have hvalue : code = '\\'.toNat := hcode
    omega
  · rw [Char.ofNat, dif_neg hvalid] at hcode
    exact absurd hcode (by decide)

/-- No small letter of the table is as low as the backslash. -/
theorem lowerRuns_above_backslash : ∀ run ∈ lowerRuns, '\\'.toNat < run.2.2.2 := by
  decide +kernel

theorem toLower_ne_backslash {c : Char} (h : c ≠ '\\') : c.toLower ≠ '\\' := by
  intro hsame
  unfold Char.toLower at hsame
  split at hsame
  · next hupper =>
    have hvalue := congrArg Char.toNat hsame
    have hfirst : 65 ≤ c.val.toNat := UInt32.le_iff_toNat_le.1 hupper.1
    have hlast : c.val.toNat ≤ 90 := UInt32.le_iff_toNat_le.1 hupper.2
    have hshifted : (c.val + ('a'.val - 'A'.val)).toNat = 92 := hvalue
    rw [UInt32.toNat_add] at hshifted
    have hoffset : ('a'.val - 'A'.val).toNat = 32 := rfl
    omega
  · exact h hsame

theorem not_mem_lowerChar {c : Char} (h : c ≠ '\\') : '\\' ∉ lowerChar c := by
  unfold lowerChar
  split
  · simpa using (toLower_ne_backslash h).symm
  · split
    · decide
    · split
      · next first last step small hfound =>
        have hsmall : '\\'.toNat < small :=
          lowerRuns_above_backslash _ (List.mem_of_find?_eq_some hfound)
        have hother := ofNat_ne_backslash (Nat.lt_add_right (c.toNat - first) hsmall)
        simpa using hother.symm
      · simpa using h.symm

theorem not_mem_lowerAfter {cs : List Char} (h : '\\' ∉ cs) (before : List Char) :
    '\\' ∉ lowerAfter before cs := by
  induction cs generalizing before with
  | nil => exact List.not_mem_nil
  | cons c cs ih =>
    rw [List.mem_cons, not_or] at h
    have hfirst : '\\' ∉ (if c = 'Σ' then [if meetsCased before && !meetsCased cs then 'ς' else 'σ']
        else lowerChar c) := by
      split
      · split <;> decide
      · exact not_mem_lowerChar (Ne.symm h.1)
    rw [lowerAfter, List.mem_append, not_or]
    exact ⟨hfirst, ih h.2 (c :: before)⟩

/-- The segments of a text in lower case are its segments, each in lower case. -/
theorem splitOn_lowerAfter (cs : List Char) :
    (lowerAfter [] cs).splitOn '\\' = (cs.splitOn '\\').map (lowerAfter []) := by
  by_cases hseparated : '\\' ∈ cs
  · obtain ⟨front, rest, rfl, hfront⟩ := List.eq_append_cons_of_mem hseparated
    rw [lowerAfter_append_backslash,
      List.splitOn_append_cons_self_of_not_mem (not_mem_lowerAfter hfront []),
      List.splitOn_append_cons_self_of_not_mem hfront, List.map_cons, splitOn_lowerAfter rest]
  · rw [List.splitOn_eq_singleton hseparated,
      List.splitOn_eq_singleton (not_mem_lowerAfter hseparated []), List.map_singleton]
termination_by cs.length
decreasing_by simp [*]; omega

theorem length_lowerAfter (before cs : List Char) :
    (lowerAfter before cs).length = (cs.flatMap lowerChar).length := by
  induction cs generalizing before with
  | nil => rfl
  | cons c cs ih =>
    have hsigma : (lowerChar 'Σ').length = 1 := by decide
    by_cases hc : c = 'Σ'
    · subst hc
      simp [lowerAfter, ih, hsigma, Nat.add_comm]
    · simp [lowerAfter, ih, hc]

theorem length_lowerChar_pos (c : Char) : 0 < (lowerChar c).length := by
  unfold lowerChar
  split
  · exact Nat.one_pos
  · split
    · decide
    · split <;> exact Nat.one_pos

end Docblock.Text
