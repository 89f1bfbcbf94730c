import Docblock.Proofs.Token.Layout
import Docblock.Proofs.Token.Signs

/-!
# The stretch of a text that tokens take

Tokens that follow one another take a stretch of the text, from the start of the first one to the
end of the last. Without its padding the stretch is what the tokens spell. It has no padding if and
only if the tokens are contiguous.
-/

namespace Docblock

namespace Lexeme

theorem not_isPadding_of_isNameChar {c : Char} (h : isNameChar c = true) : isPadding c = false := by
  cases hpadding : isPadding c with
  | false => rfl
  | true =>
    rw [isNameChar_of_isPadding hpadding] at h
    cases h

theorem not_isPadding_of_mem_nameTail {c : Char} {cs : List Char} (h : c ∈ (nameTail cs).1) :
    isPadding c = false := by
  fun_induction nameTail cs with
  | case1 => cases h
  | case2 d cs hgoes ih =>
    obtain rfl | h := List.mem_cons.1 h
    · simp only [Bool.or_eq_true, Bool.and_eq_true, decide_eq_true_eq] at hgoes
      obtain hchar | ⟨rfl, -⟩ := hgoes
      · exact not_isPadding_of_isNameChar hchar
      · decide
    · exact ih h
  | case3 ds _ _ ih =>
    simp only [List.mem_cons] at h
    obtain rfl | rfl | h := h
    · decide
    · decide
    · exact ih h
  | case4 => cases h
  | case5 => cases h

theorem not_isPadding_of_isClassPart {c d : Char} {cs : List Char}
    (h : (read c cs).kind.isClassPart = true) (hd : d ∈ (read c cs).text) :
    isPadding d = false := by
  obtain ⟨hname, hstart⟩ := read_eq_name h
  rw [hname] at hd
  obtain rfl | hd := List.mem_cons.1 hd
  · obtain hstart | ⟨rfl, -⟩ := hstart
    · exact not_isPadding_of_isNameChar (isNameChar_of_isNameStart hstart)
    · decide
  · exact not_isPadding_of_mem_nameTail hd

end Lexeme

namespace Token

open Lexeme

structure IsSolid (t : Token) : Prop where
  kind : t.kind ≠ .string
  text : ∀ c ∈ t.text.toList, isPadding c = false

def Contiguous (tokens : List Token) : Prop :=
  tokens.IsChain fun t next => t.isAdjacent next = true

def spelling (tokens : List Token) : List Char := tokens.flatMap fun t => t.text.toList

section Scan

variable {input : String} {t : Token}

theorem text_of_separator (ht : t ∈ scan input) (hkind : t.kind = .separator) : t.text = "\\" :=
  text_of_mem_scanFrom ht (d := '\\') hkind (by decide)

theorem isSolid_of_isClassPart (ht : t ∈ scan input) (hkind : t.kind.isClassPart = true) :
    t.IsSolid := by
  obtain ⟨before, c, rest, -, rfl⟩ := exists_read_of_mem_scanFrom ht
  constructor
  · intro hstring
    rw [hstring] at hkind
    cases hkind
  · intro d hd
    unfold ofLexeme at hd
    rw [String.toList_ofList] at hd
    exact not_isPadding_of_isClassPart hkind hd

theorem isSolid_of_separator (ht : t ∈ scan input) (hkind : t.kind = .separator) : t.IsSolid := by
  constructor
  · rw [hkind]
    decide
  · intro c hc
    obtain rfl : c = '\\' := by simpa [text_of_separator ht hkind] using hc
    rfl

end Scan

/-- The characters from the start of the first of some tokens to the end of the last, with the
padding between them. -/
inductive Stretch : Position → List Token → List Char → Prop
  | last {p : Position} {t : Token} {source : List Char} :
      t.Spells source → t.start = p → t.stop = (p.afterAll source).offset → Stretch p [t] source
  | more {p : Position} {t next : Token} {others : List Token} {source gap rest : List Char} :
      t.Spells source → t.start = p → t.stop = (p.afterAll source).offset →
      (∀ c ∈ gap, isPadding c = true) →
      Stretch (p.afterAll (source ++ gap)) (next :: others) rest →
      Stretch p (t :: next :: others) (source ++ (gap ++ rest))

theorem IsSolid.eq_source {t : Token} {source : List Char} (h : t.IsSolid)
    (hspells : t.Spells source) : source = t.text.toList := by
  unfold Spells at hspells
  rw [if_neg h.kind] at hspells
  exact hspells.symm

/-- The token that a text with padding in front starts with, and the tokens behind. -/
theorem Tiling.uncons {p : Position} {cs : List Char} {t : Token} {tokens : List Token}
    (h : Tiling p cs (t :: tokens)) : ∃ gap source rest, cs = gap ++ (source ++ rest) ∧
      (∀ c ∈ gap, isPadding c = true) ∧ t.Spells source ∧ t.start = p.afterAll gap ∧
      t.stop = (p.afterAll (gap ++ source)).offset ∧
      Tiling (p.afterAll (gap ++ source)) rest tokens := by
  generalize hall : t :: tokens = all at h
  induction h with
  | nil => cases hall
  | @padding p c cs all hpadding _ ih =>
    obtain ⟨gap, source, rest, rfl, hgap, hspells, hstart, hstop, hrest⟩ := ih hall
    refine ⟨c :: gap, source, rest, rfl, ?_, hspells, hstart, hstop, hrest⟩
    exact List.forall_mem_cons.2 ⟨hpadding, hgap⟩
  | token _ hspells hstart hstop hrest _ =>
    obtain ⟨rfl, rfl⟩ := List.cons.inj hall
    exact ⟨[], _, _, rfl, nofun, hspells, hstart, hstop, hrest⟩

theorem Tiling.drop {p : Position} {cs : List Char} {tokens : List Token} (h : Tiling p cs tokens)
    (i : Nat) :
    ∃ front back, cs = front ++ back ∧ Tiling (p.afterAll front) back (tokens.drop i) := by
  induction i generalizing p cs tokens with
  | zero => exact ⟨[], cs, rfl, h⟩
  | succ i ih =>
    cases tokens with
    | nil => exact ⟨[], cs, rfl, h⟩
    | cons t tokens =>
      obtain ⟨gap, source, rest, rfl, -, -, -, -, hrest⟩ := h.uncons
      obtain ⟨front, back, rfl, hback⟩ := ih hrest
      refine ⟨gap ++ source ++ front, back, by simp, ?_⟩
      rw [Position.afterAll_append]
      exact hback

/-- The first tokens of a text take a stretch of it, with padding in front. -/
theorem Tiling.stretch {p : Position} {cs : List Char} {t : Token} {others rest : List Token}
    (h : Tiling p cs (t :: (others ++ rest))) : ∃ gap source after,
      cs = gap ++ (source ++ after) ∧ (∀ c ∈ gap, isPadding c = true) ∧
      Stretch (p.afterAll gap) (t :: others) source := by
  induction others generalizing p cs t with
  | nil =>
    obtain ⟨gap, source, after, rfl, hgap, hspells, hstart, hstop, -⟩ := h.uncons
    rw [Position.afterAll_append] at hstop
    exact ⟨gap, source, after, rfl, hgap, .last hspells hstart hstop⟩
  | cons next others ih =>
    obtain ⟨gap, source, behind, rfl, hgap, hspells, hstart, hstop, hrest⟩ := h.uncons
    obtain ⟨between, more, after, rfl, hbetween, hmore⟩ := ih hrest
    rw [Position.afterAll_append] at hstop
    rw [← Position.afterAll_append, List.append_assoc, Position.afterAll_append] at hmore
    refine ⟨gap, source ++ (between ++ more), after, by simp, hgap, ?_⟩
    exact .more hspells hstart hstop hbetween hmore

namespace Stretch

variable {p : Position} {tokens : List Token} {source : List Char}

theorem start_eq {t : Token} {others : List Token} (h : Stretch p (t :: others) source) :
    t.start = p := by
  cases h with
  | last _ hstart _ => exact hstart
  | more _ hstart _ _ _ => exact hstart

theorem exists_last (h : Stretch p tokens source) :
    ∃ t, tokens.getLast? = some t ∧ t.stop = (p.afterAll source).offset := by
  induction h with
  | last _ _ hstop => exact ⟨_, rfl, hstop⟩
  | more _ _ _ _ _ ih =>
    obtain ⟨t, ht, hstop⟩ := ih
    rw [← Position.afterAll_append, List.append_assoc] at hstop
    exact ⟨t, by rwa [List.getLast?_cons_cons], hstop⟩

/-- Without its padding a stretch is what its tokens spell. -/
theorem filter_eq (h : Stretch p tokens source) (hsolid : ∀ t ∈ tokens, t.IsSolid) :
    source.filter (fun c => !isPadding c) = spelling tokens := by
  have hkept {t : Token} (ht : t.IsSolid) :
      t.text.toList.filter (fun c => !isPadding c) = t.text.toList :=
    List.filter_eq_self.2 fun c hc => by rw [ht.text c hc]; rfl
  induction h with
  | @last p t source hspells _ _ =>
    have ht := hsolid t List.mem_cons_self
    rw [ht.eq_source hspells, hkept ht]
    simp [spelling]
  | @more p t next others source gap rest hspells _ _ hgap _ ih =>
    have ht := hsolid t List.mem_cons_self
    have hnone : gap.filter (fun c => !isPadding c) = [] :=
      List.filter_eq_nil_iff.2 fun c hc => by rw [hgap c hc]; decide
    rw [List.filter_append, List.filter_append, hnone, ht.eq_source hspells, hkept ht,
      ih fun u hu => hsolid u (List.mem_cons_of_mem t hu)]
    rfl

theorem isAdjacent_iff {t next : Token} {gap : List Char}
    (hstop : t.stop = (p.afterAll source).offset)
    (hstart : next.start = p.afterAll (source ++ gap)) :
    t.isAdjacent next = true ↔ gap = [] := by
  unfold isAdjacent
  rw [beq_iff_eq, hstop, hstart, Position.afterAll_append, offset_afterAll (p.afterAll source)]
  constructor
  · intro hsame
    have hnothing : sizeOfChars gap = 0 := (Nat.left_eq_add.1 hsame)
    by_contra hsome
    exact absurd hnothing (Nat.ne_of_gt (sizeOfChars_pos hsome))
  · rintro rfl
    rfl

/-- The tokens are contiguous if and only if there is no padding in the stretch. -/
theorem contiguous_iff (h : Stretch p tokens source) (hsolid : ∀ t ∈ tokens, t.IsSolid) :
    Contiguous tokens ↔ ∀ c ∈ source, isPadding c = false := by
  induction h with
  | @last p t source hspells _ _ =>
    have ht := hsolid t List.mem_cons_self
    rw [ht.eq_source hspells]
    exact ⟨fun _ => ht.text, fun _ => .singleton t⟩
  | @more p t next others source gap rest hspells _ hstop hgap hrest ih =>
    have ht := hsolid t List.mem_cons_self
    have hsource : ∀ c ∈ source, isPadding c = false := ht.eq_source hspells ▸ ht.text
    have hnone : gap = [] ↔ ∀ c ∈ gap, isPadding c = false := by
      constructor
      · rintro rfl
        nofun
      · intro hall
        refine List.eq_nil_iff_forall_not_mem.2 fun c hc => ?_
        exact Bool.false_ne_true ((hall c hc).symm.trans (hgap c hc))
    unfold Contiguous at ih ⊢
    rw [List.isChain_cons_cons, isAdjacent_iff hstop hrest.start_eq, hnone,
      ih fun u hu => hsolid u (List.mem_cons_of_mem t hu)]
    simp only [List.forall_mem_append]
    exact ⟨fun hboth => ⟨hsource, hboth⟩, fun hall => hall.2⟩

/-- If gaps are found only behind separators, and no padding is found behind a backslash, then there
are no gaps. -/
theorem contiguous_of_glued (h : Stretch p tokens source)
    (hseparator : ∀ t ∈ tokens, t.kind = .separator → t.text = "\\" ∧ t.IsSolid)
    (hglued : tokens.IsChain fun t next => t.kind = .separator ∨ t.isAdjacent next = true)
    (hclose : ∀ front c back, source = front ++ '\\' :: c :: back → isPadding c = false) :
    Contiguous tokens := by
  unfold Contiguous
  induction h with
  | last _ _ _ => exact .singleton _
  | @more p t next others source gap rest hspells _ hstop hgap hrest ih =>
    obtain ⟨hfirst, hothers⟩ := List.isChain_cons_cons.1 hglued
    refine List.isChain_cons_cons.2 ⟨hfirst.elim (fun hkind => ?_) id, ?_⟩
    · obtain ⟨htext, hsolid⟩ := hseparator t List.mem_cons_self hkind
      obtain rfl : source = ['\\'] := by
        rw [hsolid.eq_source hspells, htext]
        rfl
      rw [isAdjacent_iff hstop hrest.start_eq]
      cases gap with
      | nil => rfl
      | cons c gap =>
        have hbare := hclose [] c (gap ++ rest) rfl
        rw [hgap c List.mem_cons_self] at hbare
        cases hbare
    · refine ih (fun u hu => hseparator u (List.mem_cons_of_mem t hu)) hothers ?_
      intro front c back hrest
      refine hclose (source ++ (gap ++ front)) c back ?_
      rw [hrest, List.append_assoc, List.append_assoc]

end Stretch

end Token

end Docblock
