import Docblock.Proofs.Object.Instances
import Docblock.Proofs.Schema.DeclaredTypes
import Docblock.Proofs.Schema.DocTags
import Mathlib.Data.List.Nodup

/-!
# Properties from two declarations

The attributes in the doc comment of a class and its public properties both declare properties of
the schema. They are declared one after another, and a property that is declared again takes the
place of the one of its name: a name keeps its first place and has its last declaration.
-/

namespace Docblock

namespace AnnotationSchema

def declareAll (properties declarations : List PropertySchema) : List PropertySchema :=
  declarations.foldl (fun ps p => declare p ps) properties

theorem declareAll_concat (properties declarations : List PropertySchema) (p : PropertySchema) :
    declareAll properties (declarations ++ [p]) = declare p (declareAll properties declarations) := by
  simp [declareAll]

theorem declareAll_append (properties front back : List PropertySchema) :
    declareAll properties (front ++ back) = declareAll (declareAll properties front) back :=
  List.foldl_append

theorem names_declareAll (declarations : List PropertySchema) :
    (declareAll [] declarations).map (fun p => p.name) =
      (declarations.map fun p => p.name).eraseDups := by
  induction declarations using List.reverseRecOn with
  | nil => rfl
  | append_singleton declarations p ih =>
    rw [declareAll_concat, names_declare, ih, List.map_append, List.map_singleton,
      List.eraseDups_concat]
    simp only [List.mem_eraseDups, List.contains_iff_mem]

theorem find?_declareAll (declarations : List PropertySchema) (name : String) :
    ((declareAll [] declarations).find? fun p => p.name == name) =
      declarations.reverse.find? fun p => p.name == name := by
  induction declarations using List.reverseRecOn with
  | nil => rfl
  | append_singleton declarations p ih =>
    rw [declareAll_concat, Reflection.find?_declare, ih, List.reverse_append,
      List.reverse_singleton, List.singleton_append]
    by_cases hname : p.name = name
    · rw [if_pos hname, List.find?_cons_of_pos (by simp [hname])]
    · rw [if_neg hname, List.find?_cons_of_neg (by simp [hname])]

end AnnotationSchema

def ClassDeclaration.assignedProperties (c : ClassDeclaration) : List PropertyDeclaration :=
  if c.hasConstructor then [] else c.properties

namespace RecordReader

variable {α : Type} {reader : RecordReader α} {a : Annotation} {annotations : List Annotation}

theorem all_cons_of_read {record : α} {records : List α} (hclass : a.className = reader.className)
    (hread : reader.read a = .ok record) (hall : reader.all annotations = .ok records) :
    reader.all (a :: annotations) = .ok (record :: records) := by
  have hselected : reader.selects a = true := by simp [selects, hclass]
  unfold all at hall ⊢
  rw [List.filter_cons_of_pos hselected, List.mapM_cons, hread, hall]
  rfl

theorem all_cons_of_other (hclass : a.className ≠ reader.className) :
    reader.all (a :: annotations) = reader.all annotations := by
  have hother : ¬ reader.selects a = true := by simp [selects, hclass]
  unfold all
  rw [List.filter_cons_of_neg hother]

end RecordReader

namespace Reflection

open AnnotationSchema (declareAll declareAll_append names_declareAll find?_declareAll)

theorem Draft.properties_declareAll (d : Draft) (attributes : List Record.Attribute) :
    (d.declareAll attributes).properties =
      AnnotationSchema.declareAll d.properties (attributes.map ofAttribute) := by
  unfold AnnotationSchema.declareAll
  rw [List.foldl_map]
  rfl

/-- The annotations of a class declare all attributes that they list. -/
theorem Draft.properties_foldlM {annotations : List Annotation} {d e : Draft}
    (h : annotations.foldlM Draft.apply d = .ok e) :
    ∃ lists, Record.attributes.all annotations = .ok lists ∧
      e.properties = AnnotationSchema.declareAll d.properties (lists.flatten.map ofAttribute) := by
  induction annotations generalizing d with
  | nil =>
    obtain rfl := Except.ok.inj h
    exact ⟨[], rfl, rfl⟩
  | cons a rest ih =>
    obtain ⟨next, happly, hfold⟩ := exists_of_foldlM_cons h
    obtain ⟨lists, hall, hrest⟩ := ih hfold
    obtain ⟨hclass, record, -, rfl⟩ | ⟨hclass, attributes, hread, rfl⟩ | ⟨-, hclass, rfl⟩ :=
      apply_cases happly
    · have hother : a.className ≠ Record.attributes.className := by
        rw [hclass]
        decide
      exact ⟨lists, (RecordReader.all_cons_of_other hother).trans hall, hrest⟩
    · refine ⟨attributes :: lists, RecordReader.all_cons_of_read hclass hread hall, ?_⟩
      rw [hrest, properties_declareAll, List.flatten_cons, List.map_append, declareAll_append]
    · exact ⟨lists, (RecordReader.all_cons_of_other hclass).trans hall, hrest⟩

def lastNamed? (name : String) (attributes : List Record.Attribute) : Option Record.Attribute :=
  attributes.reverse.find? fun a => a.name == name

theorem find?_reverse_ofAttribute (name : String) (attributes : List Record.Attribute) :
    ((attributes.map ofAttribute).reverse.find? fun p => p.name == name) =
      (lastNamed? name attributes).map ofAttribute := by
  rw [← List.map_reverse, List.find?_map]
  rfl

theorem find?_declareAll_ofAttribute (name : String) (attributes : List Record.Attribute) :
    ((declareAll [] (attributes.map ofAttribute)).find? fun p => p.name == name) =
      (lastNamed? name attributes).map ofAttribute := by
  rw [find?_declareAll, find?_reverse_ofAttribute]

/-- Some `@Required` is in the doc comment of the property, or the last attribute of its name is
required. -/
def IsRequired (attributes : List Record.Attribute) (d : PropertyDeclaration) : Prop :=
  "@Required".toList <:+: d.doc.toList ∨ ∃ a, lastNamed? d.name attributes = some a ∧ a.required = true

/-- This is the type behind the first `@var` of the doc comment of the property, or else the type
that the last attribute of its name declares, if there is one. -/
def HasType (attributes : List Record.Attribute) (d : PropertyDeclaration)
    (type? : Option PropertyType) : Prop :=
  (∃ word, FirstVar d.doc.toList word ∧ type? = PropertyType.ofDeclared? (String.ofList word)) ∨
    (∀ word, ¬ FirstVar d.doc.toList word) ∧
      type? = (lastNamed? d.name attributes).bind fun a => PropertyType.ofDeclared? a.typeName

/-- The schema of the property is what the property itself and the attributes of its class tell. -/
structure Shows (attributes : List Record.Attribute) (d : PropertyDeclaration) (q : PropertySchema) :
    Prop where
  name : q.name = d.name
  required_iff : q.required = true ↔ IsRequired attributes d
  type : HasType attributes d q.type?

theorem hasType_typeOf (attributes : List Record.Attribute) (d : PropertyDeclaration) :
    HasType attributes d (typeOf d.doc ((lastNamed? d.name attributes).map ofAttribute)) := by
  unfold typeOf
  cases hvar : varType? d.doc.toList with
  | some word => exact .inl ⟨word, varType?_eq_some_iff.1 hvar, rfl⟩
  | none =>
    refine .inr ⟨fun word hword => ?_, ?_⟩
    · rw [varType?_eq_some_iff.2 hword] at hvar
      cases hvar
    · rw [Option.bind_map]
      rfl

theorem shows_of_propertySchema {read : DocReader} {c : ClassDeclaration}
    {attributes : List Record.Attribute} {isDefault : Bool} {d : PropertyDeclaration}
    {q : PropertySchema} {m n : Memory}
    (h : (propertySchema read c (declareAll [] (attributes.map ofAttribute)) isDefault d).result m =
      (.ok q, n)) : Shows attributes d q ∧ q.isDefault = isDefault := by
  obtain ⟨enumeration, rfl⟩ := eq_of_propertySchema h
  rw [find?_declareAll_ofAttribute]
  refine ⟨⟨rfl, ?_, hasType_typeOf attributes d⟩, rfl⟩
  rw [Bool.or_eq_true, Text.occursIn_iff, Option.any_map, Option.any_eq_true]
  rfl

/-- The public properties are added in order; the first one may be the default. -/
inductive Added (attributes : List Record.Attribute) :
    Bool → List PropertyDeclaration → List PropertySchema → Prop where
  | nil {isFirst : Bool} : Added attributes isFirst [] []
  | cons {isFirst : Bool} {d : PropertyDeclaration} {q : PropertySchema}
      {rest : List PropertyDeclaration} {others : List PropertySchema} :
      Shows attributes d q → q.isDefault = isFirst → Added attributes false rest others →
        Added attributes isFirst (d :: rest) (q :: others)

theorem added_of_addProperties {read : DocReader} {c : ClassDeclaration}
    {attributes : List Record.Attribute} {properties all : List PropertySchema} {isFirst : Bool}
    {shown : List PropertyDeclaration} {m n : Memory}
    (h : (addProperties read c (declareAll [] (attributes.map ofAttribute)) isFirst properties
      shown).result m = (.ok all, n)) :
    ∃ added, Added attributes isFirst shown added ∧ all = declareAll properties added := by
  induction shown generalizing isFirst properties m with
  | nil =>
    obtain ⟨hall, -⟩ := Prod.mk.inj h
    exact ⟨[], .nil, (Except.ok.inj hall).symm⟩
  | cons d rest ih =>
    unfold addProperties at h
    obtain ⟨q, o, hq, hrest⟩ := Lookup.bind_eq_ok h
    obtain ⟨hshows, hdefault⟩ := shows_of_propertySchema hq
    obtain ⟨added, hadded, rfl⟩ := ih hrest
    exact ⟨q :: added, .cons hshows hdefault hadded, rfl⟩

variable {attributes : List Record.Attribute} {isFirst : Bool} {shown : List PropertyDeclaration}
  {added : List PropertySchema}

namespace Added

theorem names_eq (h : Added attributes isFirst shown added) :
    (added.map fun q => q.name) = shown.map fun d => d.name := by
  induction h with
  | nil => rfl
  | cons hshows _ _ ih => rw [List.map_cons, List.map_cons, hshows.name, ih]

theorem exists_shows (h : Added attributes isFirst shown added) {d : PropertyDeclaration}
    (hd : d ∈ shown) : ∃ q ∈ added, Shows attributes d q := by
  induction h with
  | nil => cases hd
  | cons hshows _ _ ih =>
    obtain rfl | hmem := List.mem_cons.1 hd
    · exact ⟨_, List.mem_cons_self, hshows⟩
    · obtain ⟨q, hq, hothers⟩ := ih hmem
      exact ⟨q, List.mem_cons_of_mem _ hq, hothers⟩

/-- The default is the first of the public properties. -/
theorem isDefault_iff (h : Added attributes isFirst shown added)
    (hdistinct : (shown.map fun d => d.name).Nodup) {q : PropertySchema} (hq : q ∈ added) :
    q.isDefault = true ↔ isFirst = true ∧ ∃ d ∈ shown.head?, d.name = q.name := by
  induction h with
  | nil => cases hq
  | @cons isFirst d first rest others hshows hdefault hothers ih =>
    rw [List.map_cons, List.nodup_cons] at hdistinct
    obtain rfl | hmem := List.mem_cons.1 hq
    · rw [hdefault]
      exact (and_iff_left ⟨d, rfl, hshows.name.symm⟩).symm
    · rw [ih hdistinct.2 hmem]
      refine iff_of_false (fun hlater => Bool.false_ne_true hlater.1) ?_
      rintro ⟨-, e, he, hname⟩
      obtain rfl := Option.some.inj he
      rw [hname, ← hothers.names_eq] at hdistinct
      exact hdistinct.1 (List.mem_map_of_mem hmem)

end Added

/-- The properties of the schema combine the attributes of its class with these public properties:
none is lost, none is invented and none stands twice. -/
structure Combines (attributes : List Record.Attribute) (shown : List PropertyDeclaration)
    (s : AnnotationSchema) : Prop where
  names_eq : s.propertyNames = (attributes.map fun a => a.name).eraseDups ++
    (shown.map fun d => d.name).filter fun name => decide (name ∉ attributes.map fun a => a.name)
  distinct : s.propertyNames.Nodup
  isDefault_iff : ∀ q ∈ s.properties, q.isDefault = true ↔ ∃ d ∈ shown.head?, d.name = q.name
  shows : ∀ d ∈ shown, ∃ q, s.property? d.name = some q ∧ Shows attributes d q
  declares : ∀ q ∈ s.properties, q.name ∉ shown.map (fun d => d.name) →
    ∃ a, lastNamed? q.name attributes = some a ∧ q = ofAttribute a

theorem eraseDups_of_nodup {names : List String} (h : names.Nodup) : names.eraseDups = names := by
  induction names using List.reverseRecOn with
  | nil => rfl
  | append_singleton names name ih =>
    obtain ⟨hnames, -, hapart⟩ := List.nodup_append.1 h
    have hnew : name ∉ names := fun hmem => hapart name hmem name (List.mem_singleton_self name) rfl
    rw [List.eraseDups_concat, ih hnames, if_neg (by simpa using hnew)]

namespace Added

variable {s : AnnotationSchema}

/-- The names declared by attributes come first, then those that only public properties have. -/
theorem propertyNames_eq (h : Added attributes isFirst shown added)
    (hdistinct : (shown.map fun d => d.name).Nodup)
    (hs : s.properties = declareAll [] (attributes.map ofAttribute ++ added)) :
    s.propertyNames = (attributes.map fun a => a.name).eraseDups ++
      (shown.map fun d => d.name).filter fun name =>
        decide (name ∉ attributes.map fun a => a.name) := by
  have hattributes : (attributes.map ofAttribute).map (fun q => q.name) =
      attributes.map fun a => a.name := List.map_map
  unfold AnnotationSchema.propertyNames
  rw [hs, names_declareAll, List.map_append, hattributes, h.names_eq, List.eraseDups_append,
    List.removeAll, eraseDups_of_nodup (hdistinct.filter _)]
  refine congrArg _ (List.filter_congr fun name _ => ?_)
  rw [List.elem_eq_mem, decide_not]

/-- What is added counts before the attributes. -/
theorem property?_of_mem (h : Added attributes isFirst shown added)
    (hdistinct : (shown.map fun d => d.name).Nodup)
    (hs : s.properties = declareAll [] (attributes.map ofAttribute ++ added)) {q : PropertySchema}
    (hq : q ∈ added) : s.property? q.name = some q := by
  have hadded : (added.reverse.map fun r => r.name).Nodup := by
    rw [List.map_reverse, List.nodup_reverse, h.names_eq]
    exact hdistinct
  unfold AnnotationSchema.property?
  rw [hs, find?_declareAll, List.reverse_append, List.find?_append,
    AnnotationSchema.find?_of_nodup hadded (List.mem_reverse.2 hq), Option.some_or]

theorem property?_of_not_mem (h : Added attributes isFirst shown added)
    (hs : s.properties = declareAll [] (attributes.map ofAttribute ++ added)) {name : String}
    (hname : name ∉ shown.map fun d => d.name) :
    s.property? name = (lastNamed? name attributes).map ofAttribute := by
  have hnone : (added.reverse.find? fun r => r.name == name) = none := by
    refine List.find?_eq_none.2 fun r hr hsame => hname ?_
    rw [← h.names_eq, ← beq_iff_eq.1 hsame]
    exact List.mem_map_of_mem (List.mem_reverse.1 hr)
  unfold AnnotationSchema.property?
  rw [hs, find?_declareAll, List.reverse_append, List.find?_append, hnone, Option.none_or,
    find?_reverse_ofAttribute]

theorem combines (h : Added attributes true shown added)
    (hdistinct : (shown.map fun d => d.name).Nodup)
    (hs : s.properties = declareAll [] (attributes.map ofAttribute ++ added)) :
    Combines attributes shown s := by
  have hnodup : s.propertyNames.Nodup := by
    unfold AnnotationSchema.propertyNames
    rw [hs, names_declareAll]
    exact List.nodup_eraseDups _
  have hself {q : PropertySchema} (hq : q ∈ s.properties) : s.property? q.name = some q :=
    AnnotationSchema.find?_of_nodup hnodup hq
  have hdeclares : ∀ q ∈ s.properties, q.name ∉ shown.map (fun d => d.name) →
      ∃ a, lastNamed? q.name attributes = some a ∧ q = ofAttribute a := by
    intro q hq hother
    have hfound := hself hq
    rw [h.property?_of_not_mem hs hother] at hfound
    obtain ⟨a, ha, hsame⟩ := Option.map_eq_some_iff.1 hfound
    exact ⟨a, ha, hsame.symm⟩
  refine ⟨h.propertyNames_eq hdistinct hs, hnodup, ?_, ?_, hdeclares⟩
  · intro q hq
    by_cases hshown : q.name ∈ shown.map fun d => d.name
    · rw [← h.names_eq] at hshown
      obtain ⟨r, hr, hname⟩ := List.mem_map.1 hshown
      have hfound := h.property?_of_mem hdistinct hs hr
      rw [hname, hself hq] at hfound
      rw [Option.some.inj hfound, h.isDefault_iff hdistinct hr]
      exact and_iff_right rfl
    · obtain ⟨a, -, rfl⟩ := hdeclares q hq hshown
      refine iff_of_false Bool.false_ne_true ?_
      rintro ⟨d, hd, hname⟩
      rw [← hname] at hshown
      exact hshown (List.mem_map_of_mem (List.mem_of_mem_head? hd))
  · intro d hd
    obtain ⟨q, hq, hshows⟩ := h.exists_shows hd
    have hfound := h.property?_of_mem hdistinct hs hq
    rw [hshows.name] at hfound
    exact ⟨q, hfound, hshows⟩

end Added

/-- The schema of a class combines the attributes in its doc comment with its public properties. -/
theorem SchemaSteps.combines {read : DocReader} {c : ClassDeclaration} {m : Memory}
    {annotations : List Annotation} {draft : Draft} {properties : List PropertySchema}
    {schema : AnnotationSchema} (h : SchemaSteps read c m annotations draft properties schema)
    (hdistinct : (c.assignedProperties.map fun d => d.name).Nodup) :
    ∃ lists, Record.attributes.all annotations = .ok lists ∧
      Combines lists.flatten c.assignedProperties schema := by
  obtain ⟨lists, hall, hdraft⟩ := Draft.properties_foldlM h.drafted
  have hdeclared : draft.properties = declareAll [] (lists.flatten.map ofAttribute) := hdraft
  have hproperties := AnnotationSchema.properties_of_make h.made
  refine ⟨lists, hall, ?_⟩
  obtain ⟨hstyle, rfl⟩ | ⟨hstyle, n, o, hrun⟩ := h.added
  · have hnone : c.assignedProperties = [] := if_pos hstyle
    rw [hnone]
    refine Added.nil.combines List.nodup_nil ?_
    rw [hproperties, hdeclared, List.append_nil]
  · have hall : c.assignedProperties = c.properties :=
      if_neg (by rw [hstyle]; exact Bool.false_ne_true)
    rw [hdeclared] at hrun
    obtain ⟨added, hadded, rfl⟩ := added_of_addProperties hrun
    rw [hall] at hdistinct ⊢
    refine hadded.combines hdistinct ?_
    rw [hproperties, declareAll_append]

end Reflection

end Docblock
