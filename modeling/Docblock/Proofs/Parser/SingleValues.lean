import Docblock.Proofs.Grammar.Single
import Docblock.Proofs.Parser.Described
import Docblock.Proofs.Parser.Shown
import Docblock.Sample

/-!
# Single values for array properties

What is given for an array property may be a single value or a list of that value. Whatever the
other arguments are, a text is answered alike for both: with the same annotations, or with the same
error. An enumeration sees what is given as it is written, so it must allow both, and a list needs a
level of nesting.
-/

namespace Docblock

open Grammar Reading

namespace Parser

variable {registry : Registry} {names : List String} {p : Parser} {context input other : String}
  {className name : String} {s : AnnotationSchema} {q : PropertySchema} {t : Term}

/-- If it can be read at all, the term is read as a value that is neither null nor a collection, and
that the enumeration of the property allows alone and in a list. -/
def MeansSingle (p : Parser) (context : String) (q : PropertySchema) (t : Term) : Prop :=
  ∀ names room found, p.Faithful p.registry names →
    meaning (scratchScope p.registry names p.settings context) room t = .ok found →
    ∃ v, found = some v ∧ v.IsSingle ∧ q.AllowsBoth v

/-- The schema for the name of an annotation is that of its class. -/
theorem Faithful.schemaFor_eq (h : p.Faithful registry names)
    (hread : p.settings.verdict registry context name = .read className)
    (hs : p.Describes className s) :
    (scratchScope registry names p.settings context).schemaFor name = .ok (some s) := by
  rw [schemaFor_eq_answer, hread]
  exact (h.describes_iff (Settings.isAnnotation_of_verdict hread).1 s).1 hs

/-- A text with a single value for an array property of a class, and the same text with that value
in braces, are answered alike. -/
theorem parse_listed (hreachable : Reachable registry p)
    (hread : p.settings.verdict registry context name = .read className)
    (hs : p.Describes className s) (hq : q ∈ s.properties) (harray : q.isArray = true)
    (hsole : s.IsSole q) (hsingle : p.MeansSingle context q t)
    {before after : List Call} {front back : List (Option String × Term)}
    (halone : p.Shows context input
      (before ++ (name, front ++ (some q.name, t) :: back) :: after))
    (hlisted : p.Shows context other
      (before ++ (name, front ++ (some q.name, .collection [(none, t)]) :: back) :: after)) :
    (p.parse other context).1 = (p.parse input context).1 := by
  obtain ⟨names, hfaithful⟩ := hreachable.faithful
  have hbare := (Settings.isAnnotation_of_verdict hread).1
  have hwellFormed : s.WellFormed := hfaithful.wellFormed_of_describes hbare hs
  have hschema := hfaithful.schemaFor_eq hread hs
  obtain ⟨used, hwritten⟩ := hlisted.exists_used
    (name, front ++ (some q.name, .collection [(none, t)]) :: back) (by simp)
    (some q.name, .collection [(none, t)]) (by simp)
  obtain rfl := hfaithful.registry_eq
  have hcall : callMeaning (scratchScope p.registry names p.settings context)
      (meaning (scratchScope p.registry names p.settings context) maxNesting) p.settings.target
        (name, front ++ (some q.name, .collection [(none, t)]) :: back) =
      callMeaning (scratchScope p.registry names p.settings context)
        (meaning (scratchScope p.registry names p.settings context) maxNesting) p.settings.target
          (name, front ++ (some q.name, t) :: back) :=
    callMeaning_listed hschema hwellFormed hq harray hsole
      (fun found => hsingle names maxNesting found hfaithful) hwritten p.settings.target front back
  rw [hfaithful.parse_of_shows hlisted, hfaithful.parse_of_shows halone]
  exact documentMeaning_exchange hcall before after

def arrayClasses : List ClassDeclaration :=
  [.make "Flags" Sample.annotationDoc
     [Sample.documented "names" ["@var array<string>", "@Enum(\x7btrue\x7d)"]],
   .make "Route" Sample.annotationDoc
     [Sample.documented "methods" ["@var array<string>", "@Enum(\x7b\"GET\", \"POST\"\x7d)"]],
   .make "Shared" Sample.annotationDoc
     [Sample.documented "count" ["@var int"], Sample.documented "value" ["@var array"]]]

-- Unification is kept from running this parser.
@[irreducible] def arrayParser : Parser :=
  .new (arrayClasses.foldl Registry.register Registry.standard)

def hasArray (p : Parser) (className property : String)
    (test : AnnotationSchema → PropertySchema → Bool) : Bool :=
  match ((p.schemaOf p.settings className).result p.memory).1 with
  | .ok (some s) =>
    !s.usesConstructor && s.properties.any fun r => r.name == property && r.isArray && test s r
  | _ => false

theorem exists_of_hasArray {property : String} {test : AnnotationSchema → PropertySchema → Bool}
    (h : p.hasArray className property test = true) :
    ∃ s q, p.Describes className s ∧ s.usesConstructor = false ∧ q ∈ s.properties ∧
      q.name = property ∧ q.isArray = true ∧ test s q = true := by
  unfold hasArray at h
  split at h
  · next s hs =>
    simp only [Bool.and_eq_true, Bool.not_eq_true', List.any_eq_true, beq_iff_eq] at h
    obtain ⟨hstyle, q, hq, ⟨hname, harray⟩, htest⟩ := h
    exact ⟨s, q, hs, hstyle, hq, hname, harray, htest⟩
  · cases h

def aloneSource (className property text : String) : String :=
  "@\\" ++ className ++ "(" ++ property ++ " = " ++ text ++ ")"

def bracedSource (className property text : String) : String :=
  aloneSource className property ("\x7b" ++ text ++ "\x7d")

def flagSource : String := aloneSource "Flags" "names" "\"x\""

def flagsSource : String := bracedSource "Flags" "names" "\"x\""

theorem not_passesOver_flags : ¬ arrayParser.PassesOver "" "\\Flags" := by
  unfold PassesOver
  decide +kernel

theorem shows_alone :
    arrayParser.Shows "" flagSource [("\\Flags", [(some "names", .literal (.string "x"))])] := by
  have hbody : DocText.body? flagSource = some flagSource := by decide
  have hscan : Token.scan flagSource = [⟨.atSign, "@", ⟨0, 1, 1⟩, 1⟩,
      ⟨.qualifiedName, "\\Flags", ⟨1, 1, 2⟩, 7⟩, ⟨.openParen, "(", ⟨7, 1, 8⟩, 8⟩,
      ⟨.identifier, "names", ⟨8, 1, 9⟩, 13⟩, ⟨.equals, "=", ⟨14, 1, 15⟩, 15⟩,
      ⟨.string, "x", ⟨16, 1, 17⟩, 19⟩, ⟨.closeParen, ")", ⟨19, 1, 20⟩, 20⟩] := by
    decide +kernel
  unfold Shows
  rw [hbody]
  dsimp only
  rw [hscan]
  have hvalue : Written (arrayParser.PassesOver "") maxNesting [⟨.string, "x", ⟨16, 1, 17⟩, 19⟩]
      (.literal (.string "x")) := .leaf (.literal (.string rfl))
  exact document_single rfl rfl not_passesOver_flags (.last (.named rfl rfl hvalue))

theorem shows_braced : arrayParser.Shows "" flagsSource
    [("\\Flags", [(some "names", .collection [(none, .literal (.string "x"))])])] := by
  have hbody : DocText.body? flagsSource = some flagsSource := by decide
  have hscan : Token.scan flagsSource = [⟨.atSign, "@", ⟨0, 1, 1⟩, 1⟩,
      ⟨.qualifiedName, "\\Flags", ⟨1, 1, 2⟩, 7⟩, ⟨.openParen, "(", ⟨7, 1, 8⟩, 8⟩,
      ⟨.identifier, "names", ⟨8, 1, 9⟩, 13⟩, ⟨.equals, "=", ⟨14, 1, 15⟩, 15⟩,
      ⟨.openBrace, "\x7b", ⟨16, 1, 17⟩, 17⟩, ⟨.string, "x", ⟨17, 1, 18⟩, 20⟩,
      ⟨.closeBrace, "\x7d", ⟨20, 1, 21⟩, 21⟩, ⟨.closeParen, ")", ⟨21, 1, 22⟩, 22⟩] := by
    decide +kernel
  unfold Shows
  rw [hbody]
  dsimp only
  rw [hscan]
  have hvalue : Written (arrayParser.PassesOver "") maxNesting
      (⟨.openBrace, "\x7b", ⟨16, 1, 17⟩, 17⟩ :: ([⟨.string, "x", ⟨17, 1, 18⟩, 20⟩] ++
        [⟨.closeBrace, "\x7d", ⟨20, 1, 21⟩, 21⟩]))
      (.collection [(none, .literal (.string "x"))]) :=
    .collection (.items rfl (.last (.plain (.leaf (.literal (.string rfl))))) rfl)
  exact document_single rfl rfl not_passesOver_flags (.last (.named rfl rfl hvalue))

def allowsText (text : String) (s : AnnotationSchema) (q : PropertySchema) : Bool :=
  q.enumeration?.any fun e =>
    e.allows (.string text) && e.allows (Value.string text).listOf &&
      s.properties.all fun r => r.name != "value"

theorem parse_listed_flags :
    ∃ s q, Reachable arrayParser.registry arrayParser ∧
      arrayParser.settings.verdict arrayParser.registry "" "\\Flags" = .read "Flags" ∧
      arrayParser.Describes "Flags" s ∧ q ∈ s.properties ∧ q.isArray = true ∧ s.IsSole q ∧
      q.enumeration?.isSome = true ∧
      arrayParser.MeansSingle "" q (.literal (.string "x")) ∧
      (arrayParser.parse flagsSource).1 = (arrayParser.parse flagSource).1 := by
  have hhas : arrayParser.hasArray "Flags" "names" (allowsText "x") = true := by decide +kernel
  have hread : arrayParser.settings.verdict arrayParser.registry "" "\\Flags" = .read "Flags" := by
    decide +kernel
  obtain ⟨s, q, hs, -, hq, hname, harray, htest⟩ := exists_of_hasArray hhas
  obtain ⟨e, he, hallowed⟩ := (Option.any_eq_true _ _).1 htest
  simp only [Bool.and_eq_true, List.all_eq_true, bne_iff_ne] at hallowed
  obtain ⟨⟨halone, hlisted⟩, hnone⟩ := hallowed
  have hsole : s.IsSole q := fun hvalue => absurd hvalue (hnone q hq)
  have hsingle : arrayParser.MeansSingle "" q (.literal (.string "x")) := by
    intro names room found _ hmeaning
    rw [meaning_literal] at hmeaning
    refine ⟨.string "x", (Except.ok.inj hmeaning).symm, ⟨rfl, rfl⟩, fun f hf => ?_⟩
    obtain rfl : e = f := Option.some.inj (he.symm.trans hf)
    exact ⟨halone, hlisted⟩
  have hreachable : Reachable arrayParser.registry arrayParser := by
    unfold arrayParser
    exact .new
  have hshown : arrayParser.Shows "" flagSource
      ([] ++ ("\\Flags", [] ++ (some q.name, .literal (.string "x")) :: []) :: []) := by
    rw [hname]
    exact shows_alone
  have hbraced : arrayParser.Shows "" flagsSource
      ([] ++ ("\\Flags", [] ++
        (some q.name, .collection [(none, .literal (.string "x"))]) :: []) :: []) := by
    rw [hname]
    exact shows_braced
  have hsame := parse_listed hreachable hread hs hq harray hsole hsingle hshown hbraced
  exact ⟨s, q, hreachable, hread, hs, hq, harray, hsole, Option.isSome_of_mem he, hsingle, hsame⟩

def Distinguishes (p : Parser) (className property text : String) : Prop :=
  ∃ s q, p.Describes className s ∧ s.usesConstructor = false ∧ q ∈ s.properties ∧
    q.name = property ∧ q.isArray = true ∧
    (p.parse (aloneSource className property text)).1.isOk = true ∧
    (p.parse (bracedSource className property text)).1.isOk = false

theorem distinguishes_of_hasArray {property text : String}
    (h : p.hasArray className property (fun _ _ =>
      (p.parse (aloneSource className property text)).1.isOk &&
        !(p.parse (bracedSource className property text)).1.isOk) = true) :
    p.Distinguishes className property text := by
  obtain ⟨s, q, hs, hstyle, hq, hname, harray, htest⟩ := exists_of_hasArray h
  rw [Bool.and_eq_true, Bool.not_eq_true'] at htest
  exact ⟨s, q, hs, hstyle, hq, hname, harray, htest⟩

/-- An enumeration may allow a value and not a list of it, and a default property may take the value
for its own. -/
theorem distinguishes_refused_and_shared :
    arrayParser.Distinguishes "Route" "methods" "\"GET\"" ∧
      arrayParser.Distinguishes "Shared" "value" "5" :=
  ⟨distinguishes_of_hasArray (by decide +kernel), distinguishes_of_hasArray (by decide +kernel)⟩

end Parser

end Docblock
