import Docblock.Proofs.Object.Enumerations
import Docblock.Proofs.Parser.Conformance

/-!
# Parsed annotations and their enumerations

Whatever a parser has read before, what is written for an enumerated property and stored in it is
one of the values listed unless it was not looked at by itself: given without a name for a default
property of another name, or together with further values.
-/

namespace Docblock.Parser

variable {registry : Registry} {p : Parser}

/-- Every annotation of a text is made of its arguments, as are all objects among the arguments. A
property of an object without constructor keeps its enumeration unless an argument evades the
check. -/
theorem enumerations_of_parse (hreachable : Reachable registry p) {input context : String}
    {as : List Annotation} (h : (p.parse input context).1 = .ok as) :
    (∀ a ∈ as, ∃ s given, Made registry p.Describes s (Argument.fold given) a) ∧
      ∀ s given a, Made registry p.Describes s (Argument.fold given) a →
        s.usesConstructor = false → p.Describes a.className s ∧ ∀ q ∈ s.properties,
          s.KeepsEnumeration given q ↔ ¬ s.Evades given q := by
  obtain ⟨names, hfaithful⟩ := hreachable.faithful
  constructor
  · intro a ha
    obtain ⟨s, values, hmade⟩ := hfaithful.made_of_parse h a ha
    cases hmade with
    | mk hbare hs hgiven hobject => exact ⟨s, _, .mk hbare hs hgiven hobject⟩
  · intro s given a hmade hstyle
    refine ⟨hfaithful.describes_of_made hmade hstyle, fun q hq => ?_⟩
    generalize hvalues : Argument.fold given = values at hmade
    cases hmade with
    | mk _ _ _ hobject =>
      rw [← hvalues] at hobject
      exact AnnotationSchema.keepsEnumeration_iff_not_evades hobject hq

def columnSource : String := "@\\App\\Mapping\\Column(name = \"id\", type = \"integer\")"

theorem enumerations_column :
    ∃ as, (Sample.plainParser.parse columnSource).1 = .ok as ∧ as ≠ [] ∧
      (∀ a ∈ as, ∃ s given,
        Made Sample.registry Sample.plainParser.Describes s (Argument.fold given) a) ∧
      ∀ s given a,
        Made Sample.registry Sample.plainParser.Describes s (Argument.fold given) a →
          s.usesConstructor = false → Sample.plainParser.Describes a.className s ∧
            ∀ q ∈ s.properties, s.KeepsEnumeration given q ↔ ¬ s.Evades given q := by
  have hsome : (Sample.plainParser.parse columnSource).1.toOption.map List.isEmpty =
      some false := by
    decide +kernel
  obtain ⟨as, hparse, has⟩ := Except.exists_ok_of_map hsome
  exact ⟨as, hparse, List.isEmpty_eq_false_iff.1 has, enumerations_of_parse .new hparse⟩

def colorClass : ClassDeclaration :=
  .make "Color" Sample.annotationDoc
    [Sample.documented "name" ["@Enum(\x7b\"red\", \"green\"\x7d)"]]

def colorParser : Parser := .new (Registry.standard.register colorClass)

def blue : Annotation := (⟨"Color", .empty⟩ : Annotation).set "name" (.string "blue")

def isBlue (a : Annotation) : Bool :=
  match a with
  | ⟨className, ⟨[(.text name, .string color)], next⟩⟩ =>
    className == "Color" && name == "name" && color == "blue" && next == 0
  | _ => false

theorem eq_blue_of_isBlue {a : Annotation} (h : isBlue a = true) : a = blue := by
  unfold isBlue at h
  split at h
  · simp only [Bool.and_eq_true, beq_iff_eq] at h
    obtain ⟨⟨⟨rfl, rfl⟩, rfl⟩, rfl⟩ := h
    rfl
  · cases h

def takesBlue (s : AnnotationSchema) (a : Annotation) (q : PropertySchema) : Bool :=
  isBlue a && q.enumeration?.any (fun e => !e.allows (.string "blue")) &&
    s.receiver? (.ofString "value") == some q.name &&
    match s.objectOf colorParser.registry ⟨"\\Color", ""⟩
        (Argument.fold [.positional (.string "blue")]) with
    | .ok made => isBlue made
    | .error _ => false

/-- A value that is not listed is stored in an enumerated property if it is given without a name. -/
theorem not_keepsEnumeration_positional :
    ∃ s q, (colorParser.parse "@\\Color(\"blue\")").1 = .ok [blue] ∧
      Made colorParser.registry colorParser.Describes s
        (Argument.fold [.positional (.string "blue")]) blue ∧
      s.usesConstructor = false ∧ q ∈ s.properties ∧
      ¬ s.KeepsEnumeration [.positional (.string "blue")] q := by
  have hfinds : colorParser.finds "@\\Color(\"blue\")" takesBlue = true := by decide +kernel
  obtain ⟨a, s, q, hparse, hs, hstyle, hq, htest⟩ := exists_of_finds hfinds
  unfold takesBlue at htest
  rw [Bool.and_eq_true, Bool.and_eq_true, Bool.and_eq_true, beq_iff_eq] at htest
  obtain ⟨⟨⟨hblue, hrefused⟩, hreceiver⟩, hmade⟩ := htest
  obtain rfl := eq_blue_of_isBlue hblue
  refine ⟨s, q, hparse, ?_, hstyle, hq, ?_⟩
  · split at hmade
    · next made hobject =>
      rw [eq_blue_of_isBlue hmade] at hobject
      refine .mk (by decide : ClassName.bare "Color" = "Color") hs ?_ hobject
      intro g hg
      rw [List.mem_singleton.1 hg]
      exact .literal (.inr rfl)
    · cases hmade
  · intro hkeeps
    obtain ⟨e, he, hallows⟩ := (Option.any_eq_true _ _).1 hrefused
    have hkept : Value.string "blue" ∈ Argument.kept "value" [.positional (.string "blue")] :=
      List.mem_singleton.2 rfl
    rw [hkeeps e "value" _ he hreceiver hkept rfl] at hallows
    cases hallows

end Docblock.Parser
