import Docblock.Parser
import Docblock.Proofs.Grammar.Origin
import Docblock.Proofs.Token.Stretches

/-!
# The text of a name

A name is what the tokens that it takes spell: the text from the first of them to the last, less the
padding in it. A separator is part of a name only if it is adjacent to the token before it, while
the part behind it may stand anywhere. So there is padding in a name if and only if there is padding
directly behind one of its backslashes.
-/

namespace Docblock

namespace Grammar

variable {before : Token} {used : List Token} {s : String}

theorem kind_of_mem_nameTail (h : NameTail before used s) {t : Token} (ht : t ∈ used) :
    t.kind = .separator ∨ t.kind.isClassPart = true := by
  induction h with
  | nil => cases ht
  | cons hseparator _ hpart _ ih =>
    simp only [List.mem_cons] at ht
    obtain rfl | rfl | ht := ht
    · exact .inl hseparator
    · exact .inr hpart
    · exact ih ht

theorem kind_of_mem_path (h : Path used s) {t : Token} (ht : t ∈ used) :
    t.kind = .separator ∨ t.kind.isClassPart = true := by
  obtain ⟨hpart, htail⟩ := h
  obtain rfl | ht := List.mem_cons.1 ht
  · exact .inr hpart
  · exact kind_of_mem_nameTail htail ht

theorem spelling_of_nameTail (h : NameTail before used s)
    (hseparator : ∀ t ∈ used, t.kind = .separator → t.text = "\\") :
    s.toList = Token.spelling used := by
  induction h with
  | nil => rfl
  | @cons before sep part rest s hkind _ _ _ ih =>
    have htext := hseparator sep List.mem_cons_self hkind
    have hrest := ih fun t ht =>
      hseparator t (List.mem_cons_of_mem sep (List.mem_cons_of_mem part ht))
    unfold Token.spelling at hrest ⊢
    rw [List.flatMap_cons, List.flatMap_cons, ← hrest, htext, String.toList_append,
      String.toList_append, List.append_assoc]

theorem spelling_of_path (h : Path used s)
    (hseparator : ∀ t ∈ used, t.kind = .separator → t.text = "\\") :
    s.toList = Token.spelling used := by
  obtain ⟨-, htail⟩ := h
  have hrest := spelling_of_nameTail htail fun t ht => hseparator t (List.mem_cons_of_mem _ ht)
  rw [String.toList_append, hrest]
  rfl

/-- A part of a name need not be adjacent to the separator before it. -/
theorem isChain_nameTail (h : NameTail before used s) :
    (before :: used).IsChain fun t next => t.kind = .separator ∨ t.isAdjacent next = true := by
  induction h with
  | nil before => exact .singleton before
  | cons hseparator hadjacent _ _ ih =>
    exact List.isChain_cons_cons.2 ⟨.inr hadjacent,
      List.isChain_cons_cons.2 ⟨.inl hseparator, ih⟩⟩

theorem isChain_path (h : Path used s) :
    used.IsChain fun t next => t.kind = .separator ∨ t.isAdjacent next = true := by
  obtain ⟨-, htail⟩ := h
  exact isChain_nameTail htail

end Grammar

namespace Token

open Lexeme

/-- The tokens of a text between two indices, and the text from the start of the first of them to
the end of the last. -/
structure Spans (input : String) (i j : Nat) (tokens : List Token) (source : List Char) : Prop where
  between : (scan input).drop i = tokens ++ (scan input).drop j
  slice : ∃ before after, input.toList = before ++ (source ++ after) ∧
    (∃ first, tokens.head? = some first ∧ first.start.offset = sizeOfChars before) ∧
    ∃ last, tokens.getLast? = some last ∧ last.stop = sizeOfChars (before ++ source)

def IsClose (source : List Char) : Prop :=
  ∀ front c back, source = front ++ '\\' :: c :: back → isPadding c = false

theorem isClose_of_forall {source : List Char} (h : ∀ c ∈ source, isPadding c = false) :
    IsClose source := by
  rintro front c back rfl
  exact h c (by simp)

/-- Tokens that follow one another in a text take a stretch of it. -/
theorem exists_stretch {input : String} {i j : Nat} {t : Token} {others : List Token}
    (h : (scan input).drop i = t :: others ++ (scan input).drop j) :
    ∃ p source, Stretch p (t :: others) source ∧ Spans input i j (t :: others) source := by
  obtain ⟨front, back, hinput, htiling⟩ := (tiling_scanFrom .start input.toList).drop i
  have hahead : (scanFrom 0 .start input.toList).drop i =
      t :: (others ++ (scan input).drop j) := h
  rw [hahead] at htiling
  obtain ⟨gap, source, after, rfl, -, hstretch⟩ := htiling.stretch
  rw [← Position.afterAll_append] at hstretch
  refine ⟨_, source, hstretch, h, front ++ gap, after, by rw [hinput, List.append_assoc], ?_, ?_⟩
  · exact ⟨t, rfl, by rw [hstretch.start_eq, offset_start_afterAll]⟩
  · obtain ⟨last, hlast, hstop⟩ := hstretch.exists_last
    rw [← Position.afterAll_append, offset_start_afterAll] at hstop
    exact ⟨last, hlast, hstop⟩

end Token

namespace Reading

open Lexeme (isPadding)
open Token (scan)

variable {scope : Scope} {input : String} {i : Nat} {m n : Memory} {written : String} {u : Window}

/-- A name that is read is the text that it takes, less the padding in it. Gaps are found behind
separators only. The tokens are contiguous, and the name is all of that text, if and only if no
padding follows one of its backslashes. -/
theorem identifier_spans
    (hrun : (identifier scope).result (.atIndex (scan input) i) m = (.ok (written, u), n)) :
    ∃ j used source, u = .atIndex (scan input) j ∧ Token.Spans input i j used source ∧
      written.toList = source.filter (fun c => !isPadding c) ∧
      (used.IsChain fun t next => t.kind = .separator ∨ t.isAdjacent next = true) ∧
      (Token.Contiguous used ↔ Token.IsClose source) ∧
      (written.toList = source ↔ Token.IsClose source) := by
  obtain ⟨⟨used, rest, hahead, hpath, hbehind⟩, -, -⟩ := Grammar.identifier_eq_ok hrun
  have hi : i ≤ (scan input).length := by
    by_contra hbeyond
    have hnone : (Window.atIndex (scan input) i).ahead = [] :=
      List.drop_eq_nil_of_le (Nat.le_of_not_le hbeyond)
    rw [hnone] at hahead
    obtain ⟨rfl, -⟩ := List.append_eq_nil_iff.1 hahead.symm
    cases hpath
  obtain ⟨j, -, -, rfl⟩ := (movingForward scope).holds_identifier _ i m n written u hi hrun
  have hrest : (scan input).drop j = rest := congrArg Window.ahead hbehind
  have hused : (scan input).drop i = used ++ (scan input).drop j := by
    rw [hrest]
    exact hahead
  have hmem {t : Token} (ht : t ∈ used) : t ∈ scan input :=
    List.mem_of_mem_drop (hused ▸ List.mem_append_left _ ht)
  have hseparator (t : Token) (ht : t ∈ used) (hkind : t.kind = .separator) :
      t.text = "\\" ∧ t.IsSolid :=
    ⟨Token.text_of_separator (hmem ht) hkind, Token.isSolid_of_separator (hmem ht) hkind⟩
  have hsolid (t : Token) (ht : t ∈ used) : t.IsSolid :=
    (Grammar.kind_of_mem_path hpath ht).elim (Token.isSolid_of_separator (hmem ht))
      (Token.isSolid_of_isClassPart (hmem ht))
  have hglued := Grammar.isChain_path hpath
  have hspelled := Grammar.spelling_of_path hpath fun t ht hkind => (hseparator t ht hkind).1
  obtain ⟨p, source, hstretch, hspans⟩ : ∃ p source, Token.Stretch p used source ∧
      Token.Spans input i j used source := by
    cases hpath
    exact Token.exists_stretch hused
  have hwritten : written.toList = source.filter (fun c => !isPadding c) := by
    rw [hstretch.filter_eq hsolid, hspelled]
  have hbare := hstretch.contiguous_iff hsolid
  have hclose : Token.Contiguous used ↔ Token.IsClose source :=
    ⟨fun hall => Token.isClose_of_forall (hbare.1 hall),
      hstretch.contiguous_of_glued hseparator hglued⟩
  refine ⟨j, used, source, rfl, hspans, hwritten, hglued, hclose, ?_⟩
  rw [← hclose, hbare, hwritten, List.filter_eq_self]
  simp

theorem scan_gapped : scan "Foo\\ Bar" = [⟨.identifier, "Foo", ⟨0, 1, 1⟩, 3⟩,
    ⟨.separator, "\\", ⟨3, 1, 4⟩, 4⟩, ⟨.identifier, "Bar", ⟨5, 1, 6⟩, 8⟩] := by
  decide +kernel

theorem identifier_gapped (scope : Scope) (m : Memory) :
    (identifier scope).result (.atIndex (scan "Foo\\ Bar") 0) m =
      (.ok ("Foo\\Bar", .atIndex (scan "Foo\\ Bar") 3), m) := by
  rw [scan_gapped]
  rfl

/-- A backslash glued to a name reaches over the blank behind it. -/
theorem identifier_spans_gapped :
    (identifier ((Parser.new .empty).scope {} "")).result (.atIndex (scan "Foo\\ Bar") 0) .initial =
      (.ok ("Foo\\Bar", .atIndex (scan "Foo\\ Bar") 3), .initial) ∧
    ∃ j used source, Window.atIndex (scan "Foo\\ Bar") 3 = .atIndex (scan "Foo\\ Bar") j ∧
      Token.Spans "Foo\\ Bar" 0 j used source ∧
      "Foo\\Bar".toList = source.filter (fun c => !isPadding c) ∧
      (used.IsChain fun t next => t.kind = .separator ∨ t.isAdjacent next = true) ∧
      (Token.Contiguous used ↔ Token.IsClose source) ∧
      ("Foo\\Bar".toList = source ↔ Token.IsClose source) :=
  ⟨identifier_gapped _ _,
    identifier_spans (identifier_gapped ((Parser.new .empty).scope {} "") .initial)⟩

/-- There are names with gaps. -/
theorem not_contiguous_identifier : ¬ ∀ (scope : Scope) (input : String) (i : Nat) (m n : Memory)
    (written : String) (u : Window),
    (identifier scope).result (.atIndex (scan input) i) m = (.ok (written, u), n) →
    ∃ j used source, u = .atIndex (scan input) j ∧ Token.Spans input i j used source ∧
      Token.Contiguous used ∧ written.toList = source := by
  intro halways
  obtain ⟨j, used, source, hu, hspans, hcontiguous, -⟩ :=
    halways _ _ _ _ _ _ _ (identifier_gapped ((Parser.new .empty).scope {} "") .initial)
  have hall := hspans.between
  have hend := congrArg Window.ahead hu
  unfold Window.atIndex at hend
  dsimp only at hend
  rw [← hend, scan_gapped, List.drop_zero, List.drop_eq_nil_of_le (Nat.le_refl 3),
    List.append_nil] at hall
  rw [← hall] at hcontiguous
  unfold Token.Contiguous at hcontiguous
  exact absurd hcontiguous (by decide)

end Reading

end Docblock
