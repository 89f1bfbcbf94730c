import Docblock.Proofs.Token.LongestMatch

/-!
# Signs in a text

A sign token is an `@` of the text that belongs to no other token. If the token before it is not
adjacent then the character before it is padding, so that it stands neither in a string nor behind
the characters of a word.
-/

namespace Docblock

namespace Token

def sizeOfChars (cs : List Char) : Nat := (String.ofList cs).utf8ByteSize

theorem sizeOfChars_append (cs ds : List Char) :
    sizeOfChars (cs ++ ds) = sizeOfChars cs + sizeOfChars ds := by
  unfold sizeOfChars
  rw [String.ofList_append, String.utf8ByteSize_append]

theorem sizeOfChars_pos {cs : List Char} (h : cs ≠ []) : 0 < sizeOfChars cs := by
  cases cs with
  | nil => exact absurd rfl h
  | cons c cs =>
    have hsize : sizeOfChars (c :: cs) = c.utf8Size + sizeOfChars cs := by simp [sizeOfChars]
    have hpos := c.utf8Size_pos
    omega

theorem offset_start_afterAll (cs : List Char) :
    (Position.start.afterAll cs).offset = sizeOfChars cs := by
  rw [offset_afterAll]
  exact Nat.zero_add _

theorem exists_append_of_sizeOfChars_lt {front more other rest : List Char}
    (hsame : front ++ more = other ++ rest) (hless : sizeOfChars front < sizeOfChars other) :
    ∃ between, between ≠ [] ∧ other = front ++ between ∧ more = between ++ rest := by
  obtain ⟨between, hother, hmore⟩ | ⟨between, hfront, -⟩ := List.append_eq_append_iff.1 hsame
  · refine ⟨between, ?_, hother, hmore⟩
    rintro rfl
    rw [List.append_nil] at hother
    rw [hother] at hless
    exact Nat.lt_irrefl _ hless
  · rw [hfront, sizeOfChars_append] at hless
    omega

section Tokens

variable {input : String} {i : Nat} {sign t : Token}

theorem stop_le_start {j k : Nat} {u : Token} (ht : (scan input)[j]? = some t)
    (hu : (scan input)[k]? = some u) (hless : j < k) : t.stop ≤ u.start.offset := by
  have hordered := (tiling_scanFrom .start input.toList).ordered
  obtain ⟨hj, rfl⟩ := List.getElem?_eq_some_iff.1 ht
  obtain ⟨hk, rfl⟩ := List.getElem?_eq_some_iff.1 hu
  exact (List.pairwise_iff_getElem.1 hordered) j k hj hk hless

theorem exists_source (ht : t ∈ scan input) : ∃ before source after,
    input.toList = before ++ (source ++ after) ∧ source ≠ [] ∧ t.Spells source ∧
      t.start.offset = sizeOfChars before ∧ t.stop = sizeOfChars (before ++ source) := by
  obtain ⟨before, source, after, hwhole, hsome, hspells, hstart, hstop⟩ :=
    (tiling_scanFrom .start input.toList).slice ht
  refine ⟨before, source, after, hwhole, hsome, hspells, ?_, ?_⟩
  · rw [hstart, offset_start_afterAll]
  · rw [hstop, offset_start_afterAll]

theorem start_lt_stop (ht : t ∈ scan input) : t.start.offset < t.stop := by
  obtain ⟨before, source, after, -, hsome, -, hstart, hstop⟩ := exists_source ht
  have hpos := sizeOfChars_pos hsome
  rw [hstart, hstop, sizeOfChars_append]
  omega

theorem index_lt {j : Nat} {u : Token} (ht : (scan input)[j]? = some t)
    (hu : (scan input)[i]? = some u) (h : t.start.offset < u.start.offset) : j < i := by
  rcases Nat.lt_trichotomy j i with hless | rfl | hless
  · exact hless
  · obtain rfl := Option.some.inj (ht.symm.trans hu)
    exact absurd h (Nat.lt_irrefl _)
  · have hbehind := stop_le_start hu ht hless
    have hnonempty := start_lt_stop (List.mem_of_getElem? hu)
    omega

/-- Only one token stands over an offset. -/
theorem eq_of_covers {u : Token} (hi : (scan input)[i]? = some sign) (hu : u ∈ scan input)
    (hstart : u.start.offset ≤ sign.start.offset) (hstop : sign.start.offset < u.stop) :
    u = sign := by
  obtain ⟨j, hj⟩ := List.mem_iff_getElem?.1 hu
  have hnonempty := start_lt_stop (List.mem_of_getElem? hi)
  rcases Nat.lt_trichotomy j i with hless | rfl | hless
  · have hbefore := stop_le_start hj hi hless
    omega
  · exact Option.some.inj (hj.symm.trans hi)
  · have hbehind := stop_le_start hi hj hless
    omega

/-- Tokens end between characters, so that one which reaches into a character takes it. -/
theorem sizeOfChars_le_stop {front rest : List Char} {c : Char}
    (hwhole : input.toList = front ++ c :: rest) (ht : t ∈ scan input)
    (hpast : sizeOfChars front < t.stop) : sizeOfChars (front ++ [c]) ≤ t.stop := by
  obtain ⟨before, source, after, hslice, -, -, -, hstop⟩ := exists_source ht
  rw [hwhole, ← List.append_assoc] at hslice
  rw [hstop] at hpast ⊢
  obtain ⟨between, hsome, hother, hmore⟩ := exists_append_of_sizeOfChars_lt hslice hpast
  cases between with
  | nil => exact absurd rfl hsome
  | cons d between =>
    obtain ⟨rfl, -⟩ := List.cons.inj hmore
    have hlonger : sizeOfChars (front ++ c :: between) =
        sizeOfChars (front ++ [c]) + sizeOfChars between := by
      rw [← sizeOfChars_append, List.append_assoc, List.singleton_append]
    rw [hother, hlonger]
    exact Nat.le_add_right _ _

/-- A token that ends where another one starts is the one before it. -/
theorem succ_index_of_stop_eq {j : Nat} {u : Token} (ht : (scan input)[j]? = some t)
    (hu : (scan input)[i]? = some u) (hless : j < i) (h : t.stop = u.start.offset) : j + 1 = i := by
  rcases Nat.eq_or_lt_of_le hless with hnext | hgap
  · exact hnext
  · obtain ⟨hlength, -⟩ := List.getElem?_eq_some_iff.1 hu
    have hnext : (scan input)[j + 1]? = some (scan input)[j + 1] :=
      List.getElem?_eq_getElem (Nat.lt_trans hgap hlength)
    have hfirst := stop_le_start ht hnext (Nat.lt_succ_self j)
    have hlast := stop_le_start hnext hu hgap
    have hnonempty := start_lt_stop (List.mem_of_getElem? hnext)
    omega

/-- A sign that no token touches from the left stands at the start of the text or behind padding,
and in no other token. -/
theorem exists_free_sign (hi : (scan input)[i]? = some sign) (hkind : sign.kind = .atSign)
    (hfree : ∀ before, 0 < i → (scan input)[i - 1]? = some before →
      before.isAdjacent sign = false) :
    ∃ before after, input.toList = before ++ '@' :: after ∧
      sign.start.offset = (String.ofList before).utf8ByteSize ∧
      (∀ c ∈ before.getLast?, Lexeme.isPadding c = true) ∧
      ∀ t ∈ scan input, t.start.offset ≤ sign.start.offset → sign.start.offset < t.stop →
        t = sign := by
  have hmem := List.mem_of_getElem? hi
  obtain ⟨before, source, after, hwhole, -, hspells, hstart, -⟩ := exists_source hmem
  obtain rfl : source = ['@'] := by
    have htext := text_of_mem_scanFrom hmem (d := '@') hkind (by decide)
    unfold Spells at hspells
    rw [hkind, if_neg (by decide), htext] at hspells
    exact hspells.symm
  refine ⟨before, after, hwhole, hstart, fun c hc => ?_, fun t ht => eq_of_covers hi ht⟩
  obtain ⟨front, rfl⟩ := List.getLast?_eq_some_iff.1 hc
  rw [List.append_assoc, List.singleton_append] at hwhole
  rcases (tiling_scanFrom .start input.toList).covers hwhole.symm with hpadding | hcovered
  · exact hpadding
  -- Otherwise the token over the character before the sign ends at the sign, and is adjacent.
  · exfalso
    obtain ⟨t, ht, hfrom, hpast⟩ := hcovered
    rw [offset_start_afterAll] at hfrom hpast
    obtain ⟨j, hj⟩ := List.mem_iff_getElem?.1 ht
    have hbehind : sizeOfChars front < sizeOfChars (front ++ [c]) := by
      rw [sizeOfChars_append]
      exact Nat.lt_add_of_pos_right (sizeOfChars_pos (List.cons_ne_nil c []))
    have hless : j < i := index_lt hj hi (by omega)
    have hends : t.stop = sign.start.offset :=
      Nat.le_antisymm (stop_le_start hj hi hless) (hstart ▸ sizeOfChars_le_stop hwhole ht hpast)
    obtain rfl := succ_index_of_stop_eq hj hi hless hends
    have hadjacent := hfree t (Nat.succ_pos j) hj
    unfold isAdjacent at hadjacent
    rw [hends, beq_self_eq_true] at hadjacent
    cases hadjacent

end Tokens

end Token

end Docblock
