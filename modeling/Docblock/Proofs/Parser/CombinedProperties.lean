import Docblock.Proofs.Parser.TypeDeclarations
import Docblock.Proofs.Schema.Combined

/-!
# Reflected properties

A parser describes a class by the attributes in the doc comment of the class and by its public
properties. The doc comment is read as any text, with the settings that hold for doc comments of
classes.
-/

namespace Docblock

open Reflection

namespace Parser

variable {registry : Registry} {names : List String} {p : Parser}

def classAnnotations (p : Parser) (c : ClassDeclaration) :
    Except AnnotationError (List Annotation) :=
  (p.forDocs.outcome (readDoc (p.forDocs.scope p.forDocs.settings ("class @" ++ c.name)) .onClass
    c.doc)).1

/-- The doc comment of a class lists these attributes, in this order. -/
def Lists (p : Parser) (c : ClassDeclaration) (attributes : List Record.Attribute) : Prop :=
  ∃ annotations lists, p.classAnnotations c = .ok annotations ∧
    Record.attributes.all annotations = .ok lists ∧ attributes = lists.flatten

theorem Faithful.forDocs (h : p.Faithful registry names) : p.forDocs.Faithful registry names where
  registry_eq := h.registry_eq
  memory := h.memory
  idle := h.idle
  unsettled _ := h.docIgnoredNames_eq

/-- The doc comment of a class is read as it is read from scratch. -/
theorem Faithful.classAnnotations_eq (h : p.Faithful registry names) (c : ClassDeclaration) :
    p.classAnnotations c = ((readDoc (scratchScope registry names (.forDocs names)
      ("class @" ++ c.name)) .onClass c.doc).result .initial).1 := by
  have hscratch := (h.forDocs.outcome
    (related_scope h.forDocs p.forDocs.settings ("class @" ++ c.name) .onClass c.doc)).1
  unfold Parser.forDocs at hscratch
  rw [h.docIgnoredNames_eq] at hscratch
  unfold classAnnotations Parser.forDocs
  rw [h.docIgnoredNames_eq]
  exact hscratch

/-- The schema of a class has the properties that the attributes in its doc comment and its public
properties declare. The schema of a class under a standard name is not read, so such classes are
left out. -/
theorem combines_of_describes (hreachable : Reachable registry p) {c : ClassDeclaration}
    (hc : registry.describe? c.name = some c) (hown : SchemaTable.standard.find? c.name = none)
    (hdistinct : (c.assignedProperties.map fun d => d.name).Nodup) {s : AnnotationSchema}
    (hs : p.Describes c.name s) :
    ∃ attributes, p.Lists c attributes ∧ Combines attributes c.assignedProperties s := by
  obtain ⟨names, h⟩ := hreachable.faithful
  have hscratch := (h.describes_iff (Registry.bare_of_describe? hc) s).1 hs
  obtain ⟨annotations, draft, properties, hsteps⟩ := steps_of_schemaFromScratch hown hc hscratch
  obtain ⟨n, hrun⟩ := hsteps.read
  obtain ⟨lists, hall, hcombines⟩ := hsteps.combines hdistinct
  have hread : p.classAnnotations c = .ok annotations := by
    rw [h.classAnnotations_eq]
    exact readDoc_of_readerFrom hrun
  exact ⟨lists.flatten, ⟨annotations, lists, hread, hall, rfl⟩, hcombines⟩

def shirt : ClassDeclaration :=
  .make "Shirt" ("@Annotation @Attributes(\x7b@Attribute(\"size\", type=\"int\"), " ++
      "@Attribute(\"size\", type=\"float\", required=true)\x7d)")
    [⟨"color", "@var string", .null⟩, ⟨"size", "", .null⟩]

def shirtParser : Parser := .new (Registry.standard.register shirt)

def described? (p : Parser) (className : String) : Option AnnotationSchema :=
  ((p.schemaOf p.settings className).result p.memory).1.toOption.join

theorem describes_of_described? {className : String} {s : AnnotationSchema}
    (h : p.described? className = some s) : p.Describes className s := by
  unfold described? at h
  unfold Describes
  cases houtcome : ((p.schemaOf p.settings className).result p.memory).1 with
  | error e =>
    rw [houtcome] at h
    cases h
  | ok found =>
    rw [houtcome] at h
    obtain rfl : found = some s := h
    rfl

/-- The name of the attributes comes first, with what is declared of it last. The default is the
first public property. -/
theorem combines_shirt :
    ∃ s attributes, shirtParser.Describes "Shirt" s ∧ shirtParser.Lists shirt attributes ∧
      Combines attributes shirt.properties s ∧
      s.properties.map (fun q => (q.name, q.type?, q.required, q.isDefault)) =
        [("size", some (.named "double" "float"), true, false),
         ("color", some (.named "string" "string"), false, true)] := by
  have hshown : (shirtParser.described? "Shirt").map (fun s => s.properties.map fun q =>
      (q.name, q.type?, q.required, q.isDefault)) = some
        [("size", some (.named "double" "float"), true, false),
         ("color", some (.named "string" "string"), false, true)] := by
    decide +kernel
  obtain ⟨s, hs, hproperties⟩ := Option.map_eq_some_iff.1 hshown
  have hdescribes : shirtParser.Describes shirt.name s := describes_of_described? hs
  obtain ⟨attributes, hlists, hcombines⟩ :=
    combines_of_describes (.new : Reachable _ shirtParser) rfl (by decide +kernel) (by decide)
      hdescribes
  exact ⟨s, attributes, hdescribes, hlists, hcombines, hproperties⟩

end Parser

end Docblock
