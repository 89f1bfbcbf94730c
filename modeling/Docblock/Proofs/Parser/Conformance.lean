import Docblock.Proofs.Object.Conformance
import Docblock.Proofs.Object.Made
import Docblock.Proofs.Parser.Described
import Docblock.Sample

/-!
# Parsed annotations conform to their schemas

Whatever a parser has read before, the annotations it gives are made of the arguments written for
them, for classes it describes. The properties of such an object hold what their schemas declare
except in a few cases, the most common of which is a default property given twice: under its own
name, which is checked, and without a name, which is stored.
-/

namespace Docblock

namespace Parser

variable {registry : Registry} {names : List String} {p : Parser} {s : AnnotationSchema}
  {values : OrderedMap Value} {a : Annotation}

theorem Faithful.made_of_parse (h : p.Faithful registry names) {input context : String}
    {as : List Annotation} (hparse : (p.parse input context).1 = .ok as) :
    ∀ a ∈ as, ∃ s values, Made registry p.Describes s values a := by
  rw [h.parse_eq] at hparse
  have hrun : (readDoc (scratchScope registry names p.settings context) p.settings.target
      input).result .initial = (.ok as, _) := Prod.ext hparse rfl
  exact made_of_readDoc (fun _ _ hbare => h.describes_of_returns hbare) hrun

/-- A made object is one of the class that its schema describes. -/
theorem Faithful.describes_of_made (h : p.Faithful registry names)
    (hmade : Made registry p.Describes s values a) (hstyle : s.usesConstructor = false) :
    p.Describes a.className s := by
  cases hmade with
  | @mk className _ _ _ _ hbare hs _ hobject =>
    have hname := h.name_of_describes hbare hs
    have hself : ClassName.bare s.name = s.name := by rw [hname, hbare]
    rw [AnnotationSchema.className_of_objectOf hself hstyle hobject, hname]
    exact hs

theorem Faithful.conforms_iff_of_made (h : p.Faithful registry names)
    (hmade : Made registry p.Describes s values a) (hstyle : s.usesConstructor = false)
    {q : PropertySchema} (hq : q ∈ s.properties) :
    s.Conforms registry.isSubclass values a q ↔ ¬ s.Slips registry values q := by
  cases hmade with
  | mk hbare hs _ hobject =>
    exact AnnotationSchema.conforms_iff_not_slips (h.wellFormed_of_describes hbare hs) hstyle
      (OrderedMap.isNormal_fold _) hobject hq

/-- Every annotation of a text is made of its arguments, as are all objects among the arguments. A
property of an object without constructor conforms to the schema of its class if and only if the
argument that was checked for it speaks for the one that is stored. -/
theorem conforms_of_parse (hreachable : Reachable registry p) {input context : String}
    {as : List Annotation} (h : (p.parse input context).1 = .ok as) :
    (∀ a ∈ as, ∃ s values, Made registry p.Describes s values a) ∧
      ∀ s values a, Made registry p.Describes s values a → s.usesConstructor = false →
        p.Describes a.className s ∧ ∀ q ∈ s.properties,
          s.Conforms registry.isSubclass values a q ↔ ¬ s.Slips registry values q := by
  obtain ⟨names, hfaithful⟩ := hreachable.faithful
  refine ⟨hfaithful.made_of_parse h, ?_⟩
  intro s values a hmade hstyle
  exact ⟨hfaithful.describes_of_made hmade hstyle,
    fun q hq => hfaithful.conforms_iff_of_made hmade hstyle hq⟩

def nestedSource : String :=
  "@\\App\\Annotation\\Typed(label = \"a\", nodes = \x7b@\\App\\Annotation\\Leaf(1), " ++
    "@\\App\\Annotation\\Node(\"x\")\x7d)"

theorem conforms_nested :
    ∃ as, (Sample.plainParser.parse nestedSource).1 = .ok as ∧ as ≠ [] ∧
      (∀ a ∈ as, ∃ s values, Made Sample.registry Sample.plainParser.Describes s values a) ∧
        ∀ s values a, Made Sample.registry Sample.plainParser.Describes s values a →
          s.usesConstructor = false →
            Sample.plainParser.Describes a.className s ∧ ∀ q ∈ s.properties,
              s.Conforms Sample.registry.isSubclass values a q ↔
                ¬ s.Slips Sample.registry values q := by
  have hsome : (Sample.plainParser.parse nestedSource).1.toOption.map List.isEmpty =
      some false := by
    decide +kernel
  obtain ⟨as, hparse, has⟩ := Except.exists_ok_of_map hsome
  exact ⟨as, hparse, List.isEmpty_eq_false_iff.1 has, conforms_of_parse .new hparse⟩

def isMissing (_ : AnnotationSchema) (a : Annotation) (q : PropertySchema) : Bool :=
  q.required && (a.get? q.name).all Value.isNull

def isMistyped (s : AnnotationSchema) (a : Annotation) (q : PropertySchema) : Bool :=
  ((s.blank Sample.registry).get? q.name).all Value.isNull && (a.get? q.name).any fun v =>
    !v.isNull && q.type?.any fun type => !type.toValueType.accepts Sample.registry.isSubclass v

def finds (p : Parser) (input : String)
    (test : AnnotationSchema → Annotation → PropertySchema → Bool) : Bool :=
  match (p.parse input).1 with
  | .ok [a] =>
    match ((p.schemaOf p.settings a.className).result p.memory).1 with
    | .ok (some s) => !s.usesConstructor && s.properties.any (test s a)
    | _ => false
  | _ => false

theorem exists_of_finds {input : String}
    {test : AnnotationSchema → Annotation → PropertySchema → Bool}
    (h : p.finds input test = true) :
    ∃ a s q, (p.parse input).1 = .ok [a] ∧ p.Describes a.className s ∧
      s.usesConstructor = false ∧ q ∈ s.properties ∧ test s a q = true := by
  unfold finds at h
  split at h
  · next a hparse =>
    split at h
    · next s hs =>
      rw [Bool.and_eq_true, Bool.not_eq_true', List.any_eq_true] at h
      obtain ⟨hstyle, q, hq, htest⟩ := h
      exact ⟨a, s, q, hparse, hs, hstyle, hq, htest⟩
    · cases h
  · cases h

def twiceSource (again : String) : String :=
  "@\\App\\Annotation\\Route(path = \"/home\", " ++ again ++ ")"

/-- A required string that is given twice is null in one case and an integer in the other. -/
theorem misfits_given_twice :
    (∃ a s q, (Sample.plainParser.parse (twiceSource "null")).1 = .ok [a] ∧
      Sample.plainParser.Describes a.className s ∧ s.usesConstructor = false ∧
      q ∈ s.properties ∧ isMissing s a q = true) ∧
    ∃ a s q, (Sample.plainParser.parse (twiceSource "5")).1 = .ok [a] ∧
      Sample.plainParser.Describes a.className s ∧ s.usesConstructor = false ∧
      q ∈ s.properties ∧ isMistyped s a q = true :=
  ⟨exists_of_finds (by decide +kernel), exists_of_finds (by decide +kernel)⟩

end Parser

end Docblock
