import Docblock.ClassName
import Docblock.Proofs.Token.Layout

/-!
# Paths

A path is written as identifiers with separators between them, and a constant of a class as a path
and an identifier behind two colons. Such a name is one lexeme, from its first character to its
last, in front of any text that no name goes on with.
-/

namespace Docblock

namespace ClassName

def isIdentifier (s : String) : Bool :=
  match s.toList with
  | [] => false
  | c :: cs => Lexeme.isNameStart c && cs.all Lexeme.isNameChar

def below (name : String) (path : List String) : String := path.foldl inside name

def IsPath (name : String) : Prop :=
  ∃ first rest, isIdentifier first = true ∧ (∀ s ∈ rest, isIdentifier s = true) ∧
    name = below first rest

def segments (path : List String) : List Char := path.flatMap fun s => '\\' :: s.toList

theorem toList_below (name : String) (path : List String) :
    (below name path).toList = name.toList ++ segments path := by
  induction path generalizing name with
  | nil => exact (List.append_nil _).symm
  | cons s rest ih =>
    have hnext : (inside name s).toList = name.toList ++ '\\' :: s.toList := by
      unfold inside
      rw [String.toList_append, String.toList_append, List.append_assoc]
      rfl
    change (below (inside name s) rest).toList = _
    rw [ih, hnext, List.append_assoc]
    rfl

theorem below_append (name : String) (path more : List String) :
    below name (path ++ more) = below (below name path) more := List.foldl_append

theorem isPath_below {name : String} {path : List String} (h : IsPath name)
    (hpath : ∀ s ∈ path, isIdentifier s = true) : IsPath (below name path) := by
  obtain ⟨first, rest, hfirst, hrest, rfl⟩ := h
  refine ⟨first, rest ++ path, hfirst, fun s hs => ?_, (below_append first rest path).symm⟩
  rcases List.mem_append.1 hs with hs | hs
  · exact hrest s hs
  · exact hpath s hs

theorem isPath_of_isIdentifier {name : String} (h : isIdentifier name = true) : IsPath name :=
  ⟨name, [], h, nofun, rfl⟩

def member (className constant : String) : String := className ++ "::" ++ constant

theorem toList_member (className constant : String) :
    (member className constant).toList = className.toList ++ ':' :: ':' :: constant.toList := by
  unfold member
  rw [String.toList_append, String.toList_append, List.append_assoc]
  rfl

theorem exists_of_isIdentifier {s : String} (h : isIdentifier s = true) :
    ∃ c cs, s.toList = c :: cs ∧ Lexeme.isNameStart c = true ∧
      ∀ d ∈ c :: cs, Lexeme.isNameChar d = true := by
  unfold isIdentifier at h
  cases hs : s.toList with
  | nil =>
    rw [hs] at h
    cases h
  | cons c cs =>
    rw [hs] at h
    obtain ⟨hstart, hchars⟩ := Bool.and_eq_true_iff.1 h
    refine ⟨c, cs, rfl, hstart, fun d hd => ?_⟩
    rcases List.mem_cons.1 hd with rfl | hd
    · exact Lexeme.isNameChar_of_isNameStart hstart
    · exact List.all_eq_true.1 hchars d hd

end ClassName

namespace Lexeme

def IsNameTail (cs : List Char) : Prop := nameTail cs = (cs, [])

instance (cs : List Char) : Decidable (IsNameTail cs) :=
  inferInstanceAs (Decidable (nameTail cs = (cs, [])))

variable {c : Char} {cs ds : List Char}

theorem IsNameTail.append (h : IsNameTail cs) (hmore : IsNameTail ds) : IsNameTail (cs ++ ds) := by
  unfold IsNameTail at hmore ⊢
  rw [nameTail_append_whole h, hmore]

theorem isNameTail_of_forall (h : ∀ c ∈ cs, isNameChar c = true) : IsNameTail cs := by
  induction cs with
  | nil => rfl
  | cons c cs ih =>
    have htail := ih fun d hd => h d (List.mem_cons_of_mem c hd)
    unfold IsNameTail at htail ⊢
    rw [nameTail_goes (by rw [h c List.mem_cons_self]; rfl), htail]

theorem IsNameTail.separated (h : IsNameTail cs) (hstart : startsWith isNameStart cs = true) :
    IsNameTail ('\\' :: cs) := by
  unfold IsNameTail at h ⊢
  rw [nameTail_goes (by simp [hstart]), h]

theorem IsNameTail.member (h : IsNameTail cs) (hstart : startsWith isNameStart cs = true) :
    IsNameTail (':' :: ':' :: cs) := by
  unfold IsNameTail at h ⊢
  rw [nameTail_colons, if_pos hstart, h]

theorem IsNameTail.isNameChar_getLast {cs : List Char} (h : IsNameTail cs) :
    ∀ c ∈ cs.getLast?, isNameChar c = true := by
  unfold IsNameTail at h
  fun_induction nameTail cs with
  | case1 => rintro _ ⟨⟩
  | case2 c cs hgoes ih =>
    obtain ⟨htail, hleft⟩ := Prod.mk.inj h
    have hlater := ih (Prod.ext (List.cons.inj htail).2 hleft)
    cases cs with
    | nil =>
      rintro _ ⟨⟩
      simpa [startsWith] using hgoes
    | cons d ds =>
      rw [List.getLast?_cons_cons]
      exact hlater
  | case3 ds hgoes hcolon ih =>
    obtain ⟨htail, hleft⟩ := Prod.mk.inj h
    have hlater := ih (Prod.ext (List.cons.inj (List.cons.inj htail).2).2 hleft)
    cases ds with
    | nil => cases hgoes
    | cons d ds =>
      rw [List.getLast?_cons_cons, List.getLast?_cons_cons]
      exact hlater
  | case4 ds hgoes hcolon => cases h
  | case5 c cs hother hstop => cases h

structure IsName (c : Char) (cs : List Char) : Prop where
  first : isNameStart c = true ∨ c = '\\' ∧ startsWith isNameStart cs = true
  tail : IsNameTail cs

theorem IsName.not_isPadding (h : IsName c cs) : isPadding c = false := by
  rw [← Bool.not_eq_true]
  intro hpadding
  have hchar := isNameChar_of_isPadding hpadding
  rcases h.first with hstart | ⟨rfl, -⟩
  · rw [isNameChar_of_isNameStart hstart] at hchar
    cases hchar
  · exact absurd hpadding (by decide)

/-- The name goes on with what a name behind it goes on with. -/
theorem IsName.read (h : IsName c cs) (rest : List Char) :
    read c (cs ++ rest) =
      ⟨nameKind (c :: (cs ++ (nameTail rest).1)), c :: (cs ++ (nameTail rest).1),
        c :: (cs ++ (nameTail rest).1), (nameTail rest).2⟩ := by
  have hname : name c (cs ++ rest) = ⟨nameKind (c :: (cs ++ (nameTail rest).1)),
      c :: (cs ++ (nameTail rest).1), c :: (cs ++ (nameTail rest).1), (nameTail rest).2⟩ := by
    unfold name
    rw [nameTail_append_whole h.tail]
  rw [← hname]
  rcases h.first with hstart | ⟨rfl, hstart⟩
  · exact read_of_isNameStart hstart
  · exact if_pos (startsWith_append hstart rest)

theorem isClassPart_nameKind (source : List Char) : (nameKind source).isClassPart = true := by
  unfold nameKind
  split
  · rfl
  · split <;> rfl

theorem nameKind_separated (cs : List Char) : nameKind ('\\' :: cs) = .qualifiedName :=
  if_pos (by simp)

/-- A quote or a backslash in a name hides nothing and closes nothing. -/
theorem stringTail_of_isNameTail (h : IsNameTail cs) (rest : List Char) :
    stringTail (cs ++ rest) = none ↔ stringTail rest = none := by
  have hplain {d : Char} (hd : isNameChar d = true) : d ≠ '"' ∧ d ≠ '\\' := by
    constructor <;>
    · rintro rfl
      exact absurd hd (by decide)
  unfold IsNameTail at h
  fun_induction nameTail cs with
  | case1 => exact Iff.rfl
  | case2 c cs hgoes ih =>
    obtain ⟨htail, hleft⟩ := Prod.mk.inj h
    have hlater := ih (Prod.ext (List.cons.inj htail).2 hleft)
    rw [Bool.or_eq_true, Bool.and_eq_true] at hgoes
    have hquote : c ≠ '"' := by
      rintro rfl
      rcases hgoes with hchar | ⟨hslash, -⟩
      · exact (hplain hchar).1 rfl
      · cases hslash
    have hslash : c = '\\' → ∃ d ds, cs ++ rest = d :: ds ∧ ¬ (d = '"' ∨ d = '\\') := by
      rintro rfl
      obtain ⟨-, hstart⟩ := hgoes.resolve_left fun hchar => (hplain hchar).2 rfl
      cases cs with
      | nil => cases hstart
      | cons d ds =>
        have hnext := hplain (isNameChar_of_isNameStart hstart)
        exact ⟨d, ds ++ rest, rfl, not_or.2 hnext⟩
    rw [List.cons_append, stringTail_bare hquote hslash, Option.map_eq_none_iff]
    exact hlater
  | case3 ds hgoes hcolon ih =>
    obtain ⟨htail, hleft⟩ := Prod.mk.inj h
    have hlater := ih (Prod.ext (List.cons.inj (List.cons.inj htail).2).2 hleft)
    have hslash : ':' ≠ '\\' := by decide
    rw [List.cons_append, List.cons_append,
      stringTail_bare (by decide) fun hsame => absurd hsame hslash, Option.map_eq_none_iff,
      stringTail_bare (by decide) fun hsame => absurd hsame hslash, Option.map_eq_none_iff]
    exact hlater
  | case4 ds hgoes hcolon => cases h
  | case5 c cs hother hstop => cases h

end Lexeme

namespace ClassName

open Lexeme

variable {name other : String} {path : List String}

theorem isNameTail_segments (h : ∀ s ∈ path, isIdentifier s = true) :
    IsNameTail (segments path) := by
  induction path with
  | nil => rfl
  | cons s rest ih =>
    obtain ⟨c, cs, hs, hstart, hchars⟩ := exists_of_isIdentifier (h s List.mem_cons_self)
    have hrest := ih fun t ht => h t (List.mem_cons_of_mem s ht)
    have hfirst : IsNameTail (c :: cs) := isNameTail_of_forall hchars
    unfold segments
    rw [List.flatMap_cons, hs]
    exact (hfirst.separated hstart).append hrest

theorem IsPath.isName (h : IsPath name) :
    ∃ c cs, name.toList = c :: cs ∧ isNameStart c = true ∧ IsNameTail cs := by
  obtain ⟨first, rest, hfirst, hrest, rfl⟩ := h
  obtain ⟨c, cs, hs, hstart, hchars⟩ := exists_of_isIdentifier hfirst
  refine ⟨c, cs ++ segments rest, ?_, hstart, ?_⟩
  · rw [toList_below, hs]
    rfl
  · have hcs := isNameTail_of_forall fun d hd => hchars d (List.mem_cons_of_mem c hd)
    exact hcs.append (isNameTail_segments hrest)

theorem IsPath.isName_member (h : IsPath name) (hother : isIdentifier other = true) :
    ∃ c cs, (member name other).toList = c :: cs ∧ isNameStart c = true ∧ IsNameTail cs := by
  obtain ⟨c, cs, hs, hstart, htail⟩ := h.isName
  obtain ⟨d, ds, hd, hnext, hchars⟩ := exists_of_isIdentifier hother
  have hmember : IsNameTail (d :: ds) := isNameTail_of_forall hchars
  refine ⟨c, cs ++ ':' :: ':' :: d :: ds, ?_, hstart, htail.append (hmember.member hnext)⟩
  rw [toList_member, hs, hd]
  rfl

theorem isName_qualified {c : Char} {cs : List Char} (hs : name.toList = c :: cs)
    (hstart : isNameStart c = true) (htail : IsNameTail cs) :
    ("\\" ++ name).toList = '\\' :: c :: cs ∧ IsName '\\' (c :: cs) := by
  have hwhole : IsNameTail (c :: cs) := by
    unfold IsNameTail at htail ⊢
    rw [nameTail_goes (by rw [isNameChar_of_isNameStart hstart]; rfl), htail]
  refine ⟨?_, .inr ⟨rfl, hstart⟩, hwhole⟩
  rw [String.toList_append, hs]
  rfl

end ClassName

end Docblock
