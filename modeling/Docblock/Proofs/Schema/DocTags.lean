import Docblock.Schema.Reflection
import Mathlib.Data.List.TakeWhile

/-!
# Tags in doc comments of properties

Two things are looked for in the doc comment of a property as it stands. A `@Required` may be
anywhere in it. Of the places where blanks and a word follow a `@var`, the first one counts, and the
word goes up to the next blank.
-/

namespace Docblock

namespace Text

theorem isSome_dropLeading?_iff (pattern cs : List Char) :
    (dropLeading? pattern cs).isSome = true ↔ pattern <+: cs := by
  constructor
  · intro h
    obtain ⟨rest, hrest⟩ := Option.isSome_iff_exists.1 h
    rw [eq_append_of_dropLeading? hrest]
    exact List.prefix_append _ _
  · rintro ⟨rest, rfl⟩
    simp [dropLeading?_append]

theorem isSome_cut?_iff (pattern cs : List Char) :
    (cut? pattern cs).isSome = true ↔ pattern <:+: cs := by
  induction cs with
  | nil =>
    rw [cut?, Option.isSome_map, isSome_dropLeading?_iff, List.infix_nil, List.prefix_nil]
  | cons c cs ih =>
    rw [List.infix_cons_iff, ← ih, ← isSome_dropLeading?_iff, cut?]
    cases dropLeading? pattern (c :: cs) <;> simp

/-- A pattern occurs in a text if the text contains it in one piece. -/
theorem occursIn_iff (pattern s : String) :
    occursIn pattern s = true ↔ pattern.toList <:+: s.toList :=
  isSome_cut?_iff pattern.toList s.toList

end Text

namespace Reflection

/-- The text begins with `@var`, blanks and this word. -/
def BeginsWithVar (cs word : List Char) : Prop :=
  ∃ gap rest, cs = "@var".toList ++ (gap ++ (word ++ rest)) ∧ gap ≠ [] ∧ word ≠ [] ∧
    (∀ c ∈ gap, Text.isBlank c = true) ∧ (∀ c ∈ word, Text.isBlank c = false) ∧
      ∀ c ∈ rest.head?, Text.isBlank c = true

/-- This is the word behind the first `@var` of the text that has a word behind it. -/
def FirstVar (cs word : List Char) : Prop :=
  ∃ before rest, cs = before ++ rest ∧ BeginsWithVar rest word ∧
    ∀ front behind other, cs = front ++ behind → BeginsWithVar behind other →
      before.length ≤ front.length

theorem dropWhile_blank {gap rest : List Char} (hgap : ∀ c ∈ gap, Text.isBlank c = true)
    (hrest : ∀ c ∈ rest.head?, Text.isBlank c = false) :
    (gap ++ rest).dropWhile Text.isBlank = rest := by
  rw [List.dropWhile_append_of_pos hgap]
  cases rest with
  | nil => rfl
  | cons c rest => exact List.dropWhile_cons_of_neg (by simp [hrest c rfl])

theorem takeWhile_word {word rest : List Char} (hword : ∀ c ∈ word, Text.isBlank c = false)
    (hrest : ∀ c ∈ rest.head?, Text.isBlank c = true) :
    (word ++ rest).takeWhile (fun c => !Text.isBlank c) = word := by
  rw [List.takeWhile_append_of_pos fun c hc => by simp [hword c hc]]
  cases rest with
  | nil => simp
  | cons c rest => simp [hrest c rfl]

theorem of_head?_dropWhile {p : Char → Bool} {cs : List Char} :
    ∀ c ∈ (cs.dropWhile p).head?, p c = false := by
  intro c hc
  have hhead := List.head?_dropWhile_not p cs
  rw [Option.mem_def.1 hc] at hhead
  exact hhead

/-- If a text begins with `@var`, blanks and a word, this word is found. -/
theorem varType?_of_begins {cs word : List Char} (h : BeginsWithVar cs word) :
    varType? cs = some word := by
  obtain ⟨gap, rest, rfl, hgap, hword, hblank, hplain, hend⟩ := h
  have hleading : Text.dropLeading? "@var".toList ("@var".toList ++ (gap ++ (word ++ rest))) =
      some (gap ++ (word ++ rest)) := Text.dropLeading?_append _ _
  have htype : (gap ++ (word ++ rest)).dropWhile Text.isBlank = word ++ rest := by
    refine dropWhile_blank hblank fun c hc => hplain c ?_
    cases word with
    | nil => exact absurd rfl hword
    | cons d word =>
      obtain rfl := Option.some.inj hc
      exact List.mem_cons_self
  have hlonger : (gap ++ (word ++ rest)).length ≠ (word ++ rest).length := by
    have hpositive := List.length_pos_iff.2 hgap
    rw [List.length_append]
    omega
  have hsplit : "@var".toList ++ (gap ++ (word ++ rest)) =
      '@' :: ("var".toList ++ (gap ++ (word ++ rest))) := rfl
  rw [hsplit] at hleading ⊢
  rw [varType?, hleading]
  dsimp only
  rw [htype, if_neg (by simp [hgap, hword]), takeWhile_word hplain hend]

theorem beginsWithVar_of_dropLeading? {cs rest : List Char}
    (hrest : Text.dropLeading? "@var".toList cs = some rest)
    (hgap : rest.length ≠ (rest.dropWhile Text.isBlank).length)
    (htype : rest.dropWhile Text.isBlank ≠ []) :
    BeginsWithVar cs ((rest.dropWhile Text.isBlank).takeWhile fun d => !Text.isBlank d) := by
  refine ⟨rest.takeWhile Text.isBlank,
    (rest.dropWhile Text.isBlank).dropWhile fun d => !Text.isBlank d, ?_, ?_, ?_, ?_, ?_, ?_⟩
  · rw [List.takeWhile_append_dropWhile, List.takeWhile_append_dropWhile]
    exact Text.eq_append_of_dropLeading? hrest
  · intro hnone
    have hsame := List.takeWhile_append_dropWhile (p := Text.isBlank) (l := rest)
    rw [hnone, List.nil_append] at hsame
    exact hgap (congrArg List.length hsame.symm)
  · obtain ⟨c, behind, hcons⟩ := List.exists_cons_of_ne_nil htype
    have hplain : Text.isBlank c = false := of_head?_dropWhile c (by rw [hcons]; rfl)
    rw [hcons, List.takeWhile_cons_of_pos (by simp [hplain])]
    exact List.cons_ne_nil _ _
  · exact fun c hc => List.mem_takeWhile_imp hc
  · intro c hc
    simpa using List.mem_takeWhile_imp hc
  · intro c hc
    simpa using of_head?_dropWhile c hc

theorem varType?_cons_of_not_begins {c : Char} {cs : List Char}
    (h : ∀ word, ¬ BeginsWithVar (c :: cs) word) : varType? (c :: cs) = varType? cs := by
  rw [varType?]
  cases hleading : Text.dropLeading? "@var".toList (c :: cs) with
  | none => rfl
  | some rest =>
    dsimp only
    split
    · rfl
    · next hmatch =>
      rw [Bool.not_eq_true, Bool.or_eq_false_iff, decide_eq_false_iff_not] at hmatch
      exact absurd (beginsWithVar_of_dropLeading? hleading hmatch.1 (by simpa using hmatch.2)) (h _)

theorem firstVar_of_begins {cs word : List Char} (h : BeginsWithVar cs word) : FirstVar cs word :=
  ⟨[], cs, rfl, h, fun _ _ _ _ _ => Nat.zero_le _⟩

theorem firstVar_cons_iff {c : Char} {cs word : List Char}
    (h : ∀ other, ¬ BeginsWithVar (c :: cs) other) : FirstVar (c :: cs) word ↔ FirstVar cs word := by
  constructor
  · rintro ⟨before, rest, hsplit, hbegins, hfirst⟩
    cases before with
    | nil => exact absurd (hsplit ▸ hbegins) (h word)
    | cons d before =>
      obtain ⟨rfl, rfl⟩ := List.cons.inj hsplit
      refine ⟨before, rest, rfl, hbegins, fun front behind other hcs hother => ?_⟩
      have hbound := hfirst (c :: front) behind other (congrArg (c :: ·) hcs) hother
      simpa using hbound
  · rintro ⟨before, rest, rfl, hbegins, hfirst⟩
    refine ⟨c :: before, rest, rfl, hbegins, fun front behind other hcs hother => ?_⟩
    cases front with
    | nil => exact absurd (hcs ▸ hother) (h other)
    | cons d front =>
      have hbound := hfirst front behind other (List.cons.inj hcs).2 hother
      simpa using hbound

/-- The type text found is the word behind the first `@var`. -/
theorem varType?_eq_some_iff {cs word : List Char} :
    varType? cs = some word ↔ FirstVar cs word := by
  induction cs with
  | nil =>
    constructor
    · intro h
      cases h
    · rintro ⟨before, rest, hsplit, ⟨gap, behind, hrest, -⟩, -⟩
      rw [hrest] at hsplit
      simp at hsplit
  | cons c cs ih =>
    by_cases hbegins : ∃ other, BeginsWithVar (c :: cs) other
    · obtain ⟨other, hother⟩ := hbegins
      rw [varType?_of_begins hother]
      constructor
      · intro h
        obtain rfl := Option.some.inj h
        exact firstVar_of_begins hother
      · rintro ⟨before, rest, hsplit, hword, hfirst⟩
        have hbound := hfirst [] (c :: cs) other rfl hother
        obtain rfl := List.length_eq_zero_iff.1 (Nat.le_zero.1 hbound)
        rw [← varType?_of_begins hother, ← varType?_of_begins hword, hsplit, List.nil_append]
    · have hnot : ∀ other, ¬ BeginsWithVar (c :: cs) other := fun other hother =>
        hbegins ⟨other, hother⟩
      rw [varType?_cons_of_not_begins hnot, ih, firstVar_cons_iff hnot]

end Reflection

end Docblock
