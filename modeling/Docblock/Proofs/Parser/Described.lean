import Docblock.Proofs.Parser.History

/-!
# Described classes

A parser describes a class by the schema that it remembers or reads now. Reading from scratch gives
the same schema, whatever the parser has read before.
-/

namespace Docblock

namespace Parser

variable {registry : Registry} {names : List String} {p : Parser}

/-- The schema of a class, as the parser remembers or reads it. -/
def Describes (p : Parser) (className : String) (s : AnnotationSchema) : Prop :=
  ((p.schemaOf p.settings className).result p.memory).1 = .ok (some s)

/-- The schema of a class does not depend on what is remembered. -/
theorem Faithful.schemaOf_eq (h : p.Faithful registry names) {className : String}
    (hbare : ClassName.bare className = className) :
    ((p.schemaOf p.settings className).result p.memory).1 =
      Reflection.schemaFromScratch registry (.forDocs names) [] className := by
  obtain rfl := h.registry_eq
  have houtcome := (h.outcome (transparent_schemaOf p.registry.classes.length p.settings []
    hbare)).1
  rw [Lookup.result_ofExcept] at houtcome
  exact houtcome

theorem Faithful.describes_iff (h : p.Faithful registry names) {className : String}
    (hbare : ClassName.bare className = className) (s : AnnotationSchema) :
    p.Describes className s ↔
      Reflection.schemaFromScratch registry (.forDocs names) [] className = .ok (some s) := by
  unfold Describes
  rw [h.schemaOf_eq hbare]

/-- What is read from scratch while a text is read is described. -/
theorem Faithful.describes_of_returns (h : p.Faithful registry names) {className : String}
    (hbare : ClassName.bare className = className) {s : AnnotationSchema} {context : String}
    (hs : ((scratchScope registry names p.settings context).schemaOf className).Returns (some s)) :
    p.Describes className s := by
  obtain ⟨m, n, hschema⟩ := hs
  apply (h.describes_iff hbare s).2
  have hresult : (Lookup.ofExcept (Reflection.schemaFromScratch registry (.forDocs names) []
      className)).result m = (.ok (some s), n) := hschema
  rw [Lookup.result_ofExcept] at hresult
  exact (Prod.mk.inj hresult).1

theorem Faithful.wellFormed_of_describes (h : p.Faithful registry names) {className : String}
    (hbare : ClassName.bare className = className) {s : AnnotationSchema}
    (hs : p.Describes className s) : s.WellFormed :=
  Reflection.wellFormed_of_schemaFromScratch ((h.describes_iff hbare s).1 hs)

theorem Faithful.name_of_describes (h : p.Faithful registry names) {className : String}
    (hbare : ClassName.bare className = className) {s : AnnotationSchema}
    (hs : p.Describes className s) : s.name = className :=
  Reflection.name_of_schemaFromScratch hbare ((h.describes_iff hbare s).1 hs)

end Parser

end Docblock
