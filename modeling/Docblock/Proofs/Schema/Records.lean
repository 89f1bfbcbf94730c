import Docblock.Proofs.Lookup.Failures
import Docblock.Proofs.Object.Records

/-!
# Records read for schemas

A schema is read from the records of annotations on the class and on its properties. Targets and
enumerations can always be read; only the records of attributes can fail. The failure of a schema
that is needed for another one is passed on, so that the errors of all schemas are of the same kind.
-/

namespace Docblock

open OrderedMap Value SchemaTable

def AnnotationError.RecordIn (P : RecordError → Prop) (e : AnnotationError) : Prop :=
  ∀ r, e = .record r → P r

theorem AnnotationError.IsOfText.recordIn {P : RecordError → Prop} {e : AnnotationError}
    (h : e.IsOfText) : e.RecordIn P := by
  rintro r rfl
  exact h.elim

theorem AnnotationError.recordIn_record {P : RecordError → Prop} {r : RecordError} (h : P r) :
    (record r).RecordIn P := by
  rintro _ ⟨⟩
  exact h

namespace Reflection

section FailsOnly

variable {allowed : AnnotationError → Prop} {read : DocReader}
  (hread : ∀ context target doc, Lookup.FailsOnly allowed (read context target doc))
  (henumeration : ∀ context doc annotations, (read context .onProperty doc).Returns annotations →
    ∃ record, Record.enumeration.first? annotations = .ok record)

include hread henumeration

theorem failsOnly_enumerationOf (c : ClassDeclaration) (p : PropertyDeclaration) :
    Lookup.FailsOnly allowed (enumerationOf read c p) := by
  unfold enumerationOf
  split
  · exact Lookup.failsOnly_pure none
  · refine (hread _ _ _).bind fun annotations hannotations => ?_
    obtain ⟨record, hrecord⟩ := henumeration _ _ _ hannotations
    rw [hrecord]
    exact Lookup.failsOnly_pure _

theorem failsOnly_addProperties (c : ClassDeclaration) (declared : List PropertySchema)
    (isFirst : Bool) (properties : List PropertySchema) (rest : List PropertyDeclaration) :
    Lookup.FailsOnly allowed (addProperties read c declared isFirst properties rest) := by
  induction rest generalizing isFirst properties with
  | nil => exact Lookup.failsOnly_pure properties
  | cons p rest ih =>
    have henum := failsOnly_enumerationOf hread henumeration c p
    refine (henum.bind fun _ _ => Lookup.failsOnly_pure _).bind fun property _ => ih false _

theorem failsOnly_schemaOfClass {c : ClassDeclaration}
    (hclass : ∀ context doc annotations, (read context .onClass doc).Returns annotations →
      FailsOnly allowed (annotations.foldlM Draft.apply .initial))
    (hschema : ∀ e, allowed (.schema e)) : Lookup.FailsOnly allowed (schemaOfClass read c) := by
  unfold schemaOfClass
  refine (hread _ _ _).bind fun annotations hannotations => ?_
  refine (Lookup.failsOnly_except (hclass _ _ _ hannotations)).bind fun draft _ => ?_
  dsimp only
  split
  case' isTrue => refine (Lookup.failsOnly_pure _).bind fun properties _ => ?_
  case' isFalse =>
    refine (failsOnly_addProperties hread henumeration c _ _ _ _).bind fun properties _ => ?_
  all_goals
    split
    · exact Lookup.failsOnly_pure _
    · exact Lookup.failsOnly_throw (hschema _)

end FailsOnly

section Scratch

variable {registry : Registry} {docs settings : Settings} {opened : List String}

def Finds (registry : Registry) (docs : Settings) (opened : List String) (className : String)
    (s : AnnotationSchema) : Prop :=
  schemaFromScratch registry docs opened className = .ok (some s)

section Made

variable (hinert : registry.IsInert) {good : Annotation → Prop} {target : Target} {a : Annotation}
  (hmade : MadeOn registry (Finds registry docs opened) target (HoldsOnly good) a)

include hinert hmade

/-- An object is made for the schema of its class, and the annotations in it come from its
arguments. -/
theorem objectOf_of_madeOn : (∃ s place given, Finds registry docs opened a.className s ∧
    s.objectOf registry place (Argument.fold given) = .ok a) ∧
      a.properties.All (HoldsOnly good) := by
  obtain @⟨className, s, place, given, a, hbare, hs, -, hgiven, hobject⟩ := hmade
  have hname := name_of_schemaFromScratch hbare hs
  obtain ⟨hclass, hall⟩ := hinert.all_objectOf (by rw [hname, hbare]) hgiven hobject
  refine ⟨⟨s, place, given, ?_, hobject⟩, hall⟩
  rw [hclass, hname]
  exact hs

theorem objectOf_of_standard {s : AnnotationSchema} (hs : standard.find? a.className = some s) :
    ∃ place given, s.objectOf registry place (Argument.fold given) = .ok a := by
  obtain ⟨⟨found, place, given, hfound, hobject⟩, -⟩ := objectOf_of_madeOn hinert hmade
  have hsame := @schemaFromScratch_standard registry docs opened _ s hs
  obtain rfl : found = s := Option.some.inj (Except.ok.inj (hfound.symm.trans hsame))
  exact ⟨place, given, hobject⟩

end Made

variable (hkeeps : registry.KeepsStandard) (hinert : registry.IsInert)

include hkeeps hinert

theorem readable_of_madeOn {target : Target} {a : Annotation}
    (hmade : MadeOn registry (Finds registry docs opened) target (HoldsOnly Record.Readable) a) :
    Record.Readable a := by
  intro hclass
  obtain ⟨place, given, hobject⟩ :=
    objectOf_of_standard hinert hmade (s := standardAttribute) (by rw [hclass]; rfl)
  exact Record.isAttribute_of_objectOf hkeeps hobject

/-- All attributes in a text are readable but possibly for their names. -/
theorem madeOn_of_scratch {context : String} {target : Target} {doc : String} {as : List Annotation}
    (h : (readerFrom registry settings (schemaFromScratch registry docs opened) context target
      doc).Returns as) :
    ∀ a ∈ as, MadeOn registry (Finds registry docs opened) target
      (HoldsOnly Record.Readable) a := by
  obtain ⟨m, n, hrun⟩ := h
  refine madeOn_of_readDoc (fun className s _ hs => ?_) hrun hinert.valueRule fun a hmade => ?_
  · obtain ⟨m, n, hschema⟩ := hs
    rw [Lookup.result_ofExcept] at hschema
    exact (Prod.mk.inj hschema).1
  · exact holdsOnly_object (readable_of_madeOn hkeeps hinert hmade)
      (objectOf_of_madeOn hinert hmade).2

/-- Of the annotations on a class only attributes cannot always be read. -/
theorem failsOnly_apply_of_madeOn {target : Target} {a : Annotation}
    (hmade : MadeOn registry (Finds registry docs opened) target (HoldsOnly Record.Readable) a)
    (draft : Draft) :
    FailsOnly (AnnotationError.RecordIn (RecordError.OfAttribute registry.isSubclass))
      (draft.apply a) := by
  unfold Draft.apply
  split
  next hclass =>
    obtain ⟨place, given, hobject⟩ :=
      objectOf_of_standard hinert hmade (s := standardTarget) (by rw [hclass]; rfl)
    obtain ⟨record, hrecord⟩ := Record.targets_of_objectOf hkeeps hclass hobject
    rw [hrecord]
    exact failsOnly_ok _
  · split
    next hclass =>
      obtain ⟨place, given, hobject⟩ :=
        objectOf_of_standard hinert hmade (s := standardAttributes) (by rw [hclass]; rfl)
      cases hread : Record.attributes.read a with
      | ok attributes => exact failsOnly_ok _
      | error e =>
        have hrecord := Record.attributes_error hclass (objectOf_of_madeOn hinert hmade).2 hobject
          hread
        exact failsOnly_error (AnnotationError.recordIn_record hrecord)
    · exact failsOnly_ok draft

/-- The enumeration of a property can always be read. -/
theorem first?_enumeration_of_madeOn {target : Target} {as : List Annotation}
    (hmade : ∀ a ∈ as, MadeOn registry (Finds registry docs opened) target
      (HoldsOnly Record.Readable) a) :
    ∃ record, Record.enumeration.first? as = .ok record := by
  unfold RecordReader.first?
  cases hfound : as.find? Record.enumeration.selects with
  | none => exact ⟨none, rfl⟩
  | some a =>
    have hselected : Record.enumeration.selects a = true := List.find?_some hfound
    have hclass : a.className = StandardName.enumeration := eq_of_beq hselected
    obtain ⟨place, given, hobject⟩ := objectOf_of_standard hinert
      (hmade a (List.mem_of_find?_eq_some hfound)) (s := standardEnumeration) (by rw [hclass]; rfl)
    obtain ⟨record, hrecord⟩ := Record.enumeration_of_objectOf hkeeps hclass hobject
    refine ⟨some record, ?_⟩
    dsimp only
    rw [hrecord]
    rfl

omit hkeeps hinert in
/-- A text fails with errors of its own or with errors of the schemas. -/
theorem failsOnly_readerFrom {P : RecordError → Prop}
    {source : String → Except AnnotationError (Option AnnotationSchema)}
    (hsource : ∀ name, FailsOnly (AnnotationError.RecordIn P) (source name)) (context : String)
    (target : Target) (doc : String) : Lookup.FailsOnly (AnnotationError.RecordIn P)
      (readerFrom registry settings source context target doc) :=
  failsOnly_readDoc (fun _ he => he.recordIn)
    (fun name => Lookup.failsOnly_ofExcept (hsource name)) target doc

/-- The only records that a schema can fail for are those of attributes. -/
theorem failsOnly_schemaFromScratch (opened : List String) (name : String) :
    FailsOnly (AnnotationError.RecordIn (RecordError.OfAttribute registry.isSubclass))
      (schemaFromScratch registry docs opened name) := by
  induction opened, name using scratch_induction registry with
  | standard opened name schema hstandard =>
    rw [schemaFromScratch_standard hstandard]
    exact failsOnly_ok _
  | plain opened name hstandard hplain =>
    rw [schemaFromScratch_plain hstandard hplain]
    exact failsOnly_ok _
  | circular opened name c hstandard hc hmarked hopen =>
    rw [schemaFromScratch_opened hstandard hc hmarked hopen]
    exact failsOnly_error nofun
  | read opened name c hstandard hc hmarked hopen ih =>
    rw [schemaFromScratch_marked hstandard hc hmarked hopen]
    have hclass : Lookup.FailsOnly
        (AnnotationError.RecordIn (RecordError.OfAttribute registry.isSubclass))
        (schemaOfClass (readerFrom registry docs
          (schemaFromScratch registry docs (c.name :: opened))) c) := by
      refine failsOnly_schemaOfClass (failsOnly_readerFrom ih) ?_ ?_ (fun _ => nofun)
      · intro context doc as has
        exact first?_enumeration_of_madeOn hkeeps hinert (madeOn_of_scratch hkeeps hinert has)
      · intro context doc as has
        have hmade := madeOn_of_scratch hkeeps hinert has
        exact failsOnly_foldlM
          (fun draft a ha => failsOnly_apply_of_madeOn hkeeps hinert (hmade a ha) draft) .initial
    exact hclass.map_result .initial

end Scratch

end Reflection

end Docblock
