import Docblock.Proofs.Lookup.Matching
import Docblock.Proofs.Parser.Composition
import Docblock.Proofs.Token.Layout

/-!
# Layout of texts

The layout of a text does not matter to what it means. Between tokens there may be any blanks and
stars, and a text may be framed as a doc comment: the same annotations are read from it, or the
same error is met, at another offset perhaps.
-/

namespace Docblock

namespace Text

theorem trimEndList_append_all {p : Char → Bool} (cs : List Char) {ds : List Char}
    (h : ∀ c ∈ ds, p c = true) : trimEndList p (cs ++ ds) = trimEndList p cs := by
  unfold trimEndList
  rw [List.reverse_append, List.dropWhile_append_of_pos fun c hc => h c (List.mem_reverse.1 hc)]

/-- Nothing is trimmed off a text if nothing is to be trimmed off its last character. -/
theorem trimEndList_eq_self_iff {p : Char → Bool} {cs : List Char} :
    trimEndList p cs = cs ↔ ∀ c ∈ cs.getLast?, p c = false := by
  rcases List.eq_nil_or_concat cs with rfl | ⟨ds, c, rfl⟩
  · exact ⟨fun _ => nofun, fun _ => rfl⟩
  · rw [List.concat_eq_append, trimEndList_concat, List.getLast?_concat]
    cases hc : p c with
    | false => simp [hc]
    | true =>
      refine ⟨fun htrimmed => ?_, fun hlast => ?_⟩
      · obtain ⟨trimmed, hwhole, -⟩ := exists_trimmed p ds
        have hlength := congrArg List.length hwhole
        rw [if_pos rfl] at htrimmed
        rw [htrimmed, List.length_append, List.length_append, List.length_singleton] at hlength
        omega
      · rw [hlast c rfl] at hc
        cases hc

end Text

open Lookup

def placement (registry : Registry) : Correspondence registry where
  exchange := .none
  rest := []
  quiet := Glyph.quiet_nil
  Related := Matches AnnotationError.unplaced fun _ => True
  related_pure := matches_pure
  related_bind := matches_bind
  related_throw _ := matches_throw
  related_swapped h := absurd h (Exchange.not_swaps_none _ _)
  related_stuck hrest := absurd rfl hrest
  related_exists _ := matches_refl fun _ _ => trivial

/-- Texts whose bodies have the same glyphs are read alike. -/
theorem matches_readDoc (scope : Scope) (target : Target) {input other body others : String}
    (hinput : DocText.body? input = some body) (hother : DocText.body? other = some others)
    (hglyphs : Glyph.ofText body.toList = Glyph.ofText others.toList) :
    Matches AnnotationError.unplaced (fun _ => True) Eq (readDoc scope target input)
      (readDoc scope target other) := by
  let r := placement scope.registry
  have hu := Correspondence.understands_of_none scope scope.schemaOf r rfl
    fun _ => matches_refl fun _ _ => trivial
  refine Correspondence.related_bodies scope scope.schemaOf r hu rfl target hinput hother ?_
  rw [hglyphs]
  exact Glyph.recast_refl r.exchange none [] _

/-- Tokens with the same glyphs are read alike. -/
theorem matches_annotations (scope : Scope) (target : Target) {ts us : List Token}
    (h : Glyph.ofTokens none ts = Glyph.ofTokens none us) :
    Matches AnnotationError.unplaced (fun _ => True) (fun found other => found.1 = other.1)
      ((Reading.annotations scope target ts.length).run (.ofTokens ts))
      ((Reading.annotations scope target us.length).run (.ofTokens us)) := by
  let r := placement scope.registry
  have hu := Correspondence.understands_of_none scope scope.schemaOf r rfl
    fun _ => matches_refl fun _ _ => trivial
  have hfollows : r.Follows none [] (.ofTokens ts) (.ofTokens us) := by
    unfold Correspondence.Follows Window.outline Window.ofTokens
    rw [h]
    exact Glyph.recast_refl r.exchange none [] _
  have hread := Correspondence.readsAt_annotations scope scope.schemaOf r hu rfl target hfollows
    (Nat.le_refl ts.length) (Nat.le_refl us.length)
  exact r.related_mono hread fun _ _ hsame => hsame.1

def EndsUnframed (s : String) : Prop :=
  ∀ c ∈ s.toList.getLast?, Lexeme.isPadding c = false ∧ c ≠ '/'

instance (s : String) : Decidable (EndsUnframed s) :=
  s.toList.getLast?.decidableForallMem

namespace DocText

theorem trimEndList_of_endsUnframed {s : String} (h : EndsUnframed s) :
    Text.trimEndList isFrame s.toList = s.toList := by
  refine Text.trimEndList_eq_self_iff.2 fun c hc => ?_
  obtain ⟨hpadding, hslash⟩ := h c hc
  have hblank : c ≠ ' ' := fun hsame => by
    rw [hsame] at hpadding
    exact absurd hpadding (by decide)
  have hstar : c ≠ '*' := fun hsame => by
    rw [hsame] at hpadding
    exact absurd hpadding (by decide)
  simp [isFrame, hblank, hstar, hslash]

/-- A text that starts with a sign and does not end in a frame is its own body. -/
theorem body?_bare {s : String} (hsigned : s.toList.head? = some '@') (h : EndsUnframed s) :
    body? s = some s := by
  rw [body?_signed hsigned, trimEndList_of_endsUnframed h, String.ofList_toList]

theorem body?_framed {s : String} (hsigned : s.toList.head? = some '@') (h : EndsUnframed s) :
    body? ("/** " ++ s ++ " */") = some s := by
  obtain ⟨cs, hcs⟩ := List.head?_eq_some_iff.1 hsigned
  have hchars : ("/** " ++ s ++ " */").toList =
      '/' :: '*' :: '*' :: ' ' :: '@' :: (cs ++ [' ', '*', '/']) := by
    rw [String.toList_append, String.toList_append, hcs]
    rfl
  have hframe : ∀ c ∈ [' ', '*', '/'], isFrame c = true := List.all_eq_true.1 rfl
  have htrimmed := trimEndList_of_endsUnframed h
  rw [← Text.trimEndList_append_all s.toList hframe, hcs] at htrimmed
  unfold body?
  rw [hchars, ← String.ofList_toList (s := s), hcs, ← htrimmed]
  rfl

end DocText

namespace Token

/-- A text is refilled behind its first character and in front of its last one. -/
theorem Refilled.ends_eq {b c : String} (h : Refilled b c) :
    b.toList.head? = c.toList.head? ∧ b.toList.getLast? = c.toList.getLast? := by
  obtain ⟨hscan, hstop, hstart, -, -, -⟩ := h
  rename_i before gap other after ts us t u
  have hfirst := bounds_of_mem_scan (v := t) (by rw [hscan]; simp)
  have hsecond := bounds_of_mem_scan (v := u) (by rw [hscan]; simp)
  rw [String.utf8ByteSize_append, hstart] at hsecond
  have hbefore : before.toList ≠ [] := by
    intro hnil
    have hempty : before.utf8ByteSize = 0 := by
      rw [String.toList_eq_nil_iff.1 hnil]
      rfl
    omega
  have hafter : after.toList ≠ [] := by
    intro hnil
    have hempty : after.utf8ByteSize = 0 := by
      rw [String.toList_eq_nil_iff.1 hnil]
      rfl
    omega
  simp only [String.toList_append, List.append_assoc]
  obtain ⟨first, rest, hfront⟩ := List.exists_cons_of_ne_nil hbefore
  obtain ⟨last, hlast⟩ := Option.isSome_iff_exists.1 (List.getLast?_isSome.2 hafter)
  refine ⟨by rw [hfront]; rfl, ?_⟩
  simp only [List.getLast?_append, hlast, Option.some_or]

theorem Relaid.ends_eq {b c : String} (h : Relaid b c) :
    b.toList.head? = c.toList.head? ∧ b.toList.getLast? = c.toList.getLast? := by
  induction h with
  | refl => exact ⟨rfl, rfl⟩
  | tail _ hstep ih => exact ⟨ih.1.trans hstep.ends_eq.1, ih.2.trans hstep.ends_eq.2⟩

end Token

namespace Parser

variable {p : Parser} {context : String}

/-- The same answer but for the place of an error, and the same parser after it. -/
def SameOutcome {α : Type} (first second : Except AnnotationError α × Parser) : Prop :=
  first.1.mapError AnnotationError.unplaced = second.1.mapError AnnotationError.unplaced ∧
    first.2 = second.2

theorem sameOutcome_parse {b c body other : String} (hb : DocText.body? b = some body)
    (hc : DocText.body? c = some other)
    (hglyphs : Glyph.ofText body.toList = Glyph.ofText other.toList) :
    SameOutcome (p.parse b context) (p.parse c context) := by
  obtain ⟨hanswer, hmemory, -⟩ :=
    matches_readDoc (p.scope p.settings context) p.settings.target hb hc hglyphs p.memory trivial
  exact ⟨hanswer.mapError_eq, congrArg (Parser.mk p.registry p.settings) hmemory⟩

/-- A text means the same with its gaps filled in another way, with and without the frame of a doc
comment. -/
theorem parse_relaid (p : Parser) {b c context : String} (hsigned : b.toList.head? = some '@')
    (hends : EndsUnframed b) (h : Token.Relaid b c) :
    SameOutcome (p.parse b context) (p.parse c context) ∧
      SameOutcome (p.parse b context) (p.parse ("/** " ++ c ++ " */") context) := by
  obtain ⟨hhead, hlast⟩ := h.ends_eq
  have hother : c.toList.head? = some '@' := by rw [← hhead, hsigned]
  have hendsOther : EndsUnframed c := by
    unfold EndsUnframed
    rw [← hlast]
    exact hends
  have hbare := DocText.body?_bare hsigned hends
  exact ⟨sameOutcome_parse hbare (DocText.body?_bare hother hendsOther) h.ofText_eq,
    sameOutcome_parse hbare (DocText.body?_framed hother hendsOther) h.ofText_eq⟩

def linedSource : String := "@\\App\\Annotation\\Route(\"/a*b\",\n *\tname = \"c\")"

theorem relaid_lined : Token.Relaid routeSource linedSource := by
  have hroute : routeSource =
      "@\\App\\Annotation\\Route(\"/a*b\"," ++ " " ++ "name = \"c\")" := by
    decide
  have hlined : linedSource =
      "@\\App\\Annotation\\Route(\"/a*b\"," ++ "\n *\t" ++ "name = \"c\")" := by
    decide
  have hscan : Token.scan routeSource = routeTokens.take 4 ++
      ⟨.comma, ",", ⟨29, 1, 30⟩, 30⟩ :: ⟨.identifier, "name", ⟨31, 1, 32⟩, 35⟩ ::
        routeTokens.drop 6 := scan_route
  rw [hroute] at hscan
  rw [hroute, hlined]
  exact .single (.gap hscan (by decide) (by decide) (by decide) (by decide)
    (List.all_eq_true.1 (by decide)))

theorem parse_relaid_lined :
    (Sample.plainParser.parse routeSource).1.toOption.map List.length = some 1 ∧
      SameOutcome (Sample.plainParser.parse routeSource) (Sample.plainParser.parse linedSource) ∧
      SameOutcome (Sample.plainParser.parse routeSource)
        (Sample.plainParser.parse ("/** " ++ linedSource ++ " */")) :=
  ⟨lengths_parse.1, parse_relaid Sample.plainParser (by decide) (by decide) relaid_lined⟩

end Parser

end Docblock
