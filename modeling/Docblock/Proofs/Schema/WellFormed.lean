import Docblock.Proofs.Schema.Recalled

/-!
# Well-formed schemas

The properties of a schema that is read have distinct names, and at most one of them is the default.
-/

namespace Docblock

namespace AnnotationSchema

structure WellFormed (s : AnnotationSchema) : Prop where
  distinct : s.propertyNames.Nodup
  oneDefault : (s.properties.filter fun p => p.isDefault).length ≤ 1

theorem nodup_declare {properties : List PropertySchema}
    (h : (properties.map fun p => p.name).Nodup) (property : PropertySchema) :
    ((declare property properties).map fun p => p.name).Nodup := by
  rw [names_declare]
  split
  · exact h
  · next habsent =>
    rw [List.nodup_append]
    refine ⟨h, by simp, ?_⟩
    intro name hname other hother hsame
    obtain rfl := List.mem_singleton.1 hother
    rw [hsame] at hname
    exact habsent hname

def countDefaults (properties : List PropertySchema) : Nat :=
  (properties.filter fun p => p.isDefault).length

theorem countDefaults_cons (p : PropertySchema) (properties : List PropertySchema) :
    countDefaults (p :: properties) = p.isDefault.toNat + countDefaults properties := by
  unfold countDefaults
  cases hp : p.isDefault <;> simp [hp, Nat.add_comm]

/-- A declared property may be one more default. -/
theorem countDefaults_declare_le (property : PropertySchema) (properties : List PropertySchema) :
    countDefaults (declare property properties) ≤
      property.isDefault.toNat + countDefaults properties := by
  induction properties with
  | nil => exact Nat.le_of_eq (countDefaults_cons property [])
  | cons p rest ih =>
    unfold declare
    split
    · rw [countDefaults_cons, countDefaults_cons]
      omega
    · rw [countDefaults_cons, countDefaults_cons]
      omega

theorem exists_make {name : String} {target : Target} {usesConstructor : Bool}
    {properties : List PropertySchema} (h : countDefaults properties ≤ 1) :
    ∃ schema, make name target usesConstructor properties = .ok schema := by
  refine ⟨⟨name, target, usesConstructor, properties⟩, ?_⟩
  unfold make
  dsimp only
  rw [if_neg]
  rw [List.length_map]
  exact Nat.not_lt.2 h

theorem wellFormed_of_make {name : String} {target : Target} {usesConstructor : Bool}
    {properties : List PropertySchema} {schema : AnnotationSchema}
    (h : make name target usesConstructor properties = .ok schema)
    (hdistinct : (properties.map fun p => p.name).Nodup) : schema.WellFormed := by
  unfold make at h
  dsimp only at h
  split at h
  · cases h
  · next hfew =>
    obtain rfl := Except.ok.inj h
    refine ⟨hdistinct, ?_⟩
    rw [List.length_map] at hfew
    exact Nat.le_of_not_lt hfew

theorem properties_of_make {name : String} {target : Target} {usesConstructor : Bool}
    {properties : List PropertySchema} {schema : AnnotationSchema}
    (h : make name target usesConstructor properties = .ok schema) :
    schema.properties = properties := by
  unfold make at h
  dsimp only at h
  split at h
  · cases h
  · rw [← Except.ok.inj h]

theorem name_of_make {name : String} {target : Target} {usesConstructor : Bool}
    {properties : List PropertySchema} {schema : AnnotationSchema}
    (h : make name target usesConstructor properties = .ok schema) : schema.name = name := by
  unfold make at h
  dsimp only at h
  split at h
  · cases h
  · rw [← Except.ok.inj h]

theorem find?_of_nodup {properties : List PropertySchema}
    (h : (properties.map fun p => p.name).Nodup) {p : PropertySchema} (hp : p ∈ properties) :
    (properties.find? fun q => q.name == p.name) = some p := by
  induction properties with
  | nil => cases hp
  | cons q rest ih =>
    rw [List.map_cons, List.nodup_cons] at h
    rw [List.find?_cons]
    obtain rfl | hmem := List.mem_cons.1 hp
    · rw [BEq.rfl]
    · have hother : (q.name == p.name) = false := by
        rw [beq_eq_false_iff_ne]
        intro hsame
        apply h.1
        rw [hsame]
        exact List.mem_map_of_mem hmem
      rw [hother]
      exact ih h.2 hmem

/-- In a well-formed schema a property is found under its name. -/
theorem WellFormed.property?_eq {s : AnnotationSchema} (h : s.WellFormed) {p : PropertySchema}
    (hp : p ∈ s.properties) : s.property? p.name = some p :=
  find?_of_nodup h.distinct hp

theorem WellFormed.eq_of_name {s : AnnotationSchema} (h : s.WellFormed) {p q : PropertySchema}
    (hp : p ∈ s.properties) (hq : q ∈ s.properties) (hname : p.name = q.name) : p = q := by
  have hfound := h.property?_eq hp
  rw [hname, h.property?_eq hq] at hfound
  exact (Option.some.inj hfound).symm

theorem WellFormed.eq_of_default {s : AnnotationSchema} (h : s.WellFormed) {p q : PropertySchema}
    (hp : p ∈ s.properties) (hq : q ∈ s.properties) (hpd : p.isDefault = true)
    (hqd : q.isDefault = true) : p = q := by
  have hp' : p ∈ s.properties.filter fun p => p.isDefault := List.mem_filter.2 ⟨hp, hpd⟩
  have hq' : q ∈ s.properties.filter fun p => p.isDefault := List.mem_filter.2 ⟨hq, hqd⟩
  have hone := h.oneDefault
  cases hdefaults : s.properties.filter fun p => p.isDefault with
  | nil =>
    rw [hdefaults] at hp'
    cases hp'
  | cons d rest =>
    rw [hdefaults, List.length_cons] at hone
    have hrest : rest = [] := List.eq_nil_of_length_eq_zero (by omega)
    rw [hdefaults, hrest, List.mem_singleton] at hp' hq'
    rw [hp', hq']

theorem wellFormed_standard {s : AnnotationSchema} (h : s ∈ SchemaTable.standardSchemas) :
    s.WellFormed := by
  simp only [SchemaTable.standardSchemas, List.mem_cons, List.not_mem_nil, or_false] at h
  obtain rfl | rfl | rfl | rfl | rfl | rfl := h
  all_goals exact ⟨by decide, by decide⟩

end AnnotationSchema

namespace SchemaTable

theorem mem_of_addAll {t : SchemaTable} {schemas : List AnnotationSchema} {name : String}
    {schema : AnnotationSchema} (h : (t.addAll schemas).1.find? name = some schema) :
    t.find? name = some schema ∨ (schema ∈ schemas ∧ schema.name = name) := by
  induction schemas generalizing t with
  | nil => exact .inl h
  | cons first rest ih =>
    unfold addAll add at h
    by_cases hpresent : t.contains first.name = true
    · rw [if_pos hpresent] at h
      exact .inl h
    · rw [if_neg hpresent] at h
      obtain hfound | ⟨hmem, hname⟩ := ih h
      · dsimp only at hfound
        by_cases hsame : name = first.name
        · rw [if_pos hsame] at hfound
          rw [← Option.some.inj hfound]
          exact .inr ⟨List.mem_cons_self, hsame.symm⟩
        · rw [if_neg hsame] at hfound
          exact .inl hfound
      · exact .inr ⟨List.mem_cons_of_mem first hmem, hname⟩

theorem mem_of_standard {name : String} {schema : AnnotationSchema}
    (h : standard.find? name = some schema) : schema ∈ standardSchemas ∧ schema.name = name := by
  obtain hfound | hmem := mem_of_addAll h
  · cases hfound
  · exact hmem

end SchemaTable

namespace Reflection

open AnnotationSchema (nodup_declare)

def Draft.Distinct (d : Draft) : Prop := (d.properties.map fun p => p.name).Nodup

theorem Draft.distinct_declareAll {d : Draft} (h : d.Distinct)
    (attributes : List Record.Attribute) : (d.declareAll attributes).Distinct := by
  obtain ⟨target, properties⟩ := d
  unfold declareAll Distinct at *
  dsimp only at *
  induction attributes generalizing properties with
  | nil => exact h
  | cons a rest ih => exact ih _ (nodup_declare h _)

/-- An annotation of the class doc comment sets the targets, or declares attributes, or is of another
class and changes nothing. -/
theorem Draft.apply_cases {d e : Draft} {a : Annotation} (h : d.apply a = .ok e) :
    (a.className = StandardName.target ∧ ∃ record, Record.targets.read a = .ok record ∧
      e = { d with target := record.targets }) ∨
    (a.className = StandardName.attributes ∧ ∃ attributes,
      Record.attributes.read a = .ok attributes ∧ e = d.declareAll attributes) ∨
    (a.className ≠ StandardName.target ∧ a.className ≠ StandardName.attributes ∧ e = d) := by
  unfold apply at h
  split at h
  · next htarget =>
    split at h
    · next record hread => exact .inl ⟨htarget, record, hread, (Except.ok.inj h).symm⟩
    · cases h
  · next hother =>
    split at h
    · next hclass =>
      split at h
      · next attributes hread =>
        exact .inr (.inl ⟨hclass, attributes, hread, (Except.ok.inj h).symm⟩)
      · cases h
    · next hclass => exact .inr (.inr ⟨hother, hclass, (Except.ok.inj h).symm⟩)

/-- Annotations that are all taken over are taken over one after another. -/
theorem Draft.exists_of_foldlM_cons {d e : Draft} {a : Annotation} {rest : List Annotation}
    (h : (a :: rest).foldlM apply d = .ok e) :
    ∃ next, d.apply a = .ok next ∧ rest.foldlM apply next = .ok e := by
  rw [List.foldlM_cons] at h
  cases happly : d.apply a with
  | error e =>
    rw [happly] at h
    cases h
  | ok next =>
    rw [happly] at h
    exact ⟨next, rfl, h⟩

theorem Draft.distinct_apply {d e : Draft} {a : Annotation} (h : d.Distinct)
    (happly : d.apply a = .ok e) : e.Distinct := by
  obtain ⟨-, record, -, rfl⟩ | ⟨-, attributes, -, rfl⟩ | ⟨-, -, rfl⟩ := apply_cases happly
  · exact h
  · exact distinct_declareAll h attributes
  · exact h

theorem Draft.distinct_foldlM {annotations : List Annotation} {d e : Draft} (h : d.Distinct)
    (hfold : annotations.foldlM apply d = .ok e) : e.Distinct := by
  induction annotations generalizing d with
  | nil =>
    obtain rfl := Except.ok.inj hfold
    exact h
  | cons a rest ih =>
    obtain ⟨next, happly, hrest⟩ := exists_of_foldlM_cons hfold
    exact ih (distinct_apply h happly) hrest

theorem nodup_addProperties {read : DocReader} {c : ClassDeclaration}
    {declared properties others : List PropertySchema} {isFirst : Bool}
    {rest : List PropertyDeclaration} {m n : Memory}
    (h : (properties.map fun p => p.name).Nodup)
    (hrun : (addProperties read c declared isFirst properties rest).result m = (.ok others, n)) :
    (others.map fun p => p.name).Nodup := by
  induction rest generalizing isFirst properties m with
  | nil =>
    obtain ⟨hothers, -⟩ := Prod.mk.inj hrun
    obtain rfl := Except.ok.inj hothers
    exact h
  | cons p rest ih =>
    unfold addProperties at hrun
    obtain ⟨property, o, -, hrest⟩ := Lookup.bind_eq_ok hrun
    exact ih (nodup_declare h property) hrest

theorem Draft.countDefaults_declareAll (d : Draft) (attributes : List Record.Attribute) :
    AnnotationSchema.countDefaults (d.declareAll attributes).properties ≤
      AnnotationSchema.countDefaults d.properties := by
  obtain ⟨target, properties⟩ := d
  unfold declareAll
  dsimp only
  induction attributes generalizing properties with
  | nil => exact Nat.le_refl _
  | cons a rest ih =>
    have hfirst : AnnotationSchema.countDefaults (AnnotationSchema.declare (ofAttribute a)
        properties) ≤ 0 + AnnotationSchema.countDefaults properties :=
      AnnotationSchema.countDefaults_declare_le (ofAttribute a) properties
    rw [Nat.zero_add] at hfirst
    exact Nat.le_trans (ih _) hfirst

theorem Draft.countDefaults_apply {d e : Draft} {a : Annotation} (h : d.apply a = .ok e) :
    AnnotationSchema.countDefaults e.properties ≤ AnnotationSchema.countDefaults d.properties := by
  obtain ⟨-, record, -, rfl⟩ | ⟨-, attributes, -, rfl⟩ | ⟨-, -, rfl⟩ := apply_cases h
  · exact Nat.le_refl _
  · exact d.countDefaults_declareAll attributes
  · exact Nat.le_refl _

/-- The annotations of a class declare no default property. -/
theorem Draft.countDefaults_foldlM {annotations : List Annotation} {d e : Draft}
    (h : annotations.foldlM apply d = .ok e) :
    AnnotationSchema.countDefaults e.properties ≤ AnnotationSchema.countDefaults d.properties := by
  induction annotations generalizing d with
  | nil =>
    obtain rfl := Except.ok.inj h
    exact Nat.le_refl _
  | cons a rest ih =>
    obtain ⟨next, happly, hrest⟩ := exists_of_foldlM_cons h
    exact Nat.le_trans (ih hrest) (countDefaults_apply happly)

/-- A property that is added is told by its doc comment and what the class declares of it, but for
the enumeration, which has to be read. -/
theorem eq_of_propertySchema {read : DocReader} {c : ClassDeclaration}
    {declared : List PropertySchema} {isDefault : Bool} {p : PropertyDeclaration}
    {property : PropertySchema} {m n : Memory}
    (h : (propertySchema read c declared isDefault p).result m = (.ok property, n)) :
    ∃ enumeration, property = {
      name := p.name
      type? := typeOf p.doc (declared.find? fun d => d.name == p.name)
      required := Text.occursIn "@Required" p.doc ||
        (declared.find? fun d => d.name == p.name).any fun d => d.required
      isDefault := isDefault
      enumeration? := enumeration } := by
  unfold propertySchema at h
  obtain ⟨enumeration, o, -, hrest⟩ := Lookup.bind_eq_ok h
  rw [Lookup.result_pure] at hrest
  obtain ⟨hproperty, -⟩ := Prod.mk.inj hrest
  exact ⟨enumeration, (Except.ok.inj hproperty).symm⟩

/-- Of the properties added the first one is a default. -/
theorem countDefaults_addProperties {read : DocReader} {c : ClassDeclaration}
    {declared properties others : List PropertySchema} {isFirst : Bool}
    {rest : List PropertyDeclaration} {m n : Memory}
    (h : (addProperties read c declared isFirst properties rest).result m = (.ok others, n)) :
    AnnotationSchema.countDefaults others ≤
      isFirst.toNat + AnnotationSchema.countDefaults properties := by
  induction rest generalizing isFirst properties m with
  | nil =>
    obtain ⟨hothers, -⟩ := Prod.mk.inj h
    obtain rfl := Except.ok.inj hothers
    exact Nat.le_add_left _ _
  | cons p rest ih =>
    unfold addProperties at h
    obtain ⟨property, o, hproperty, hrest⟩ := Lookup.bind_eq_ok h
    obtain ⟨enumeration, hsame⟩ := eq_of_propertySchema hproperty
    have hdeclared := AnnotationSchema.countDefaults_declare_le property properties
    rw [show property.isDefault = isFirst by rw [hsame]] at hdeclared
    have hothers := ih hrest
    rw [Bool.toNat_false, Nat.zero_add] at hothers
    exact Nat.le_trans hothers hdeclared

/-- A class is given a schema only if the schema could be made. -/
theorem eq_ok_of_made {made : Except SchemaError AnnotationSchema} {schema : AnnotationSchema}
    {m n : Memory} (h : (match made with
      | .ok schema => return schema
      | .error e => throw (.schema e) : Lookup AnnotationSchema).result m = (.ok schema, n)) :
    made = .ok schema := by
  cases made with
  | ok found =>
    obtain ⟨rfl, -⟩ : found = schema ∧ m = n := by simpa using h
    rfl
  | error e => simp at h

/-- The steps that lead from a class to its schema: the annotations of its doc comment, the draft
that they make, and the properties, which are those of the draft if there is a constructor. -/
structure SchemaSteps (reader : DocReader) (c : ClassDeclaration) (m : Memory)
    (annotations : List Annotation) (draft : Draft) (properties : List PropertySchema)
    (schema : AnnotationSchema) : Prop where
  read : ∃ n, (reader ("class @" ++ c.name) .onClass c.doc).result m = (.ok annotations, n)
  drafted : annotations.foldlM Draft.apply Draft.initial = .ok draft
  added : (c.hasConstructor = true ∧ properties = draft.properties) ∨
    (c.hasConstructor = false ∧ ∃ n o, (addProperties reader c draft.properties true
      draft.properties c.properties).result n = (.ok properties, o))
  made : AnnotationSchema.make c.name draft.target c.hasConstructor properties = .ok schema

theorem steps_of_schemaOfClass {read : DocReader} {c : ClassDeclaration} {m n : Memory}
    {schema : AnnotationSchema} (h : (schemaOfClass read c).result m = (.ok schema, n)) :
    ∃ annotations draft properties, SchemaSteps read c m annotations draft properties schema := by
  unfold schemaOfClass at h
  obtain ⟨annotations, m₁, hannotations, h⟩ := Lookup.bind_eq_ok h
  obtain ⟨draft, m₂, hdraft, h⟩ := Lookup.bind_eq_ok h
  have hfold : annotations.foldlM Draft.apply Draft.initial = .ok draft := by
    cases hfold : annotations.foldlM Draft.apply Draft.initial with
    | error e =>
      rw [hfold] at hdraft
      cases hdraft
    | ok made =>
      rw [hfold] at hdraft
      obtain ⟨hmade, -⟩ := Prod.mk.inj hdraft
      exact hmade
  dsimp only at h
  split at h
  · next hstyle =>
    obtain ⟨properties, m₃, hproperties, h⟩ := Lookup.bind_eq_ok h
    obtain ⟨rfl, -⟩ : draft.properties = properties ∧ m₂ = m₃ := by simpa using hproperties
    exact ⟨annotations, draft, _, ⟨m₁, hannotations⟩, hfold, .inl ⟨hstyle, rfl⟩, eq_ok_of_made h⟩
  · next hstyle =>
    obtain ⟨properties, m₃, hproperties, h⟩ := Lookup.bind_eq_ok h
    exact ⟨annotations, draft, properties, ⟨m₁, hannotations⟩, hfold,
      .inr ⟨Bool.eq_false_iff.2 hstyle, m₂, m₃, hproperties⟩, eq_ok_of_made h⟩

/-- The schema of a class is made of properties with distinct names. -/
theorem make_of_schemaOfClass {read : DocReader} {c : ClassDeclaration} {m n : Memory}
    {schema : AnnotationSchema} (h : (schemaOfClass read c).result m = (.ok schema, n)) :
    ∃ target properties, (properties.map fun p => p.name).Nodup ∧
      AnnotationSchema.make c.name target c.hasConstructor properties = .ok schema := by
  obtain ⟨annotations, draft, properties, hsteps⟩ := steps_of_schemaOfClass h
  have hinitial : Draft.initial.Distinct := List.nodup_nil
  have hdistinct : draft.Distinct := Draft.distinct_foldlM hinitial hsteps.drafted
  refine ⟨draft.target, properties, ?_, hsteps.made⟩
  obtain ⟨-, rfl⟩ | ⟨-, m₁, m₂, hproperties⟩ := hsteps.added
  · exact hdistinct
  · exact nodup_addProperties hdistinct hproperties

theorem name_of_schemaOfClass {read : DocReader} {c : ClassDeclaration} {m n : Memory}
    {schema : AnnotationSchema} (h : (schemaOfClass read c).result m = (.ok schema, n)) :
    schema.name = c.name := by
  obtain ⟨target, properties, -, hmake⟩ := make_of_schemaOfClass h
  exact AnnotationSchema.name_of_make hmake

/-- A schema read from scratch is a standard one or is made from a registered class. -/
theorem made_of_schemaFromScratch {registry : Registry} {settings : Settings}
    {opened : List String} {name : String} {schema : AnnotationSchema}
    (h : schemaFromScratch registry settings opened name = .ok (some schema)) :
    SchemaTable.standard.find? name = some schema ∨ ∃ c target properties,
      registry.describe? name = some c ∧ (properties.map fun p => p.name).Nodup ∧
        AnnotationSchema.make c.name target c.hasConstructor properties = .ok schema := by
  cases hstandard : SchemaTable.standard.find? name with
  | some standard =>
    rw [schemaFromScratch_standard hstandard] at h
    exact .inl (congrArg some (Option.some.inj (Except.ok.inj h)))
  | none =>
    right
    by_cases hplain : IsPlain registry name
    · rw [schemaFromScratch_plain hstandard hplain] at h
      cases h
    · obtain ⟨c, hc, hmarked⟩ : ∃ c, registry.describe? name = some c ∧
          Text.occursIn marker c.doc = true := by
        simpa [IsPlain] using hplain
      by_cases hopen : c.name ∈ opened
      · rw [schemaFromScratch_opened hstandard hc hmarked hopen] at h
        cases h
      · rw [schemaFromScratch_marked hstandard hc hmarked hopen] at h
        cases hread : (schemaOfClass (readerFrom registry settings
            (schemaFromScratch registry settings (c.name :: opened))) c).result .initial with
        | mk outcome n =>
          rw [hread] at h
          cases outcome with
          | error e => cases h
          | ok made =>
            obtain rfl := Option.some.inj (Except.ok.inj h)
            obtain ⟨target, properties, hmade⟩ := make_of_schemaOfClass hread
            exact ⟨c, target, properties, hc, hmade⟩

theorem wellFormed_of_schemaFromScratch {registry : Registry} {settings : Settings}
    {opened : List String} {name : String} {schema : AnnotationSchema}
    (h : schemaFromScratch registry settings opened name = .ok (some schema)) :
    schema.WellFormed := by
  obtain hstandard | ⟨c, target, properties, -, hdistinct, hmake⟩ := made_of_schemaFromScratch h
  · exact AnnotationSchema.wellFormed_standard (SchemaTable.mem_of_standard hstandard).1
  · exact AnnotationSchema.wellFormed_of_make hmake hdistinct

theorem name_of_schemaFromScratch {registry : Registry} {settings : Settings}
    {opened : List String} {name : String} (hbare : ClassName.bare name = name)
    {schema : AnnotationSchema}
    (h : schemaFromScratch registry settings opened name = .ok (some schema)) :
    schema.name = name := by
  obtain hstandard | ⟨c, target, properties, hc, -, hmake⟩ := made_of_schemaFromScratch h
  · exact (SchemaTable.mem_of_standard hstandard).2
  · rw [AnnotationSchema.name_of_make hmake]
    exact Registry.name_eq_of_describe? hbare hc

end Reflection

end Docblock
