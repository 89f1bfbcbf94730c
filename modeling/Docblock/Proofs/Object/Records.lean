import Docblock.Proofs.Object.Inside

/-!
# Records of objects

The constructors of the standard classes store what they are given in the form in which the records
are read, and the checks of arguments see to most of the rest. What they do not see to is the name
of an attribute that is given twice, that an attribute may be of a class that inherits from the
standard one, and that the names to ignore need not be strings.
-/

namespace Docblock

open OrderedMap Value

def Registry.KeepsStandard (r : Registry) : Prop :=
  ∀ name c, Registry.standard.describe? name = some c → r.describe? name = some c

theorem Registry.keepsStandard_standard : Registry.standard.KeepsStandard := fun _ _ h => h

theorem Registry.KeepsStandard.register {r : Registry} (h : r.KeepsStandard) {c : ClassDeclaration}
    (hc : Registry.standard.lookup? c.name = none) : (r.register c).KeepsStandard := by
  intro name d hd
  unfold Registry.describe? at hd ⊢
  rw [Registry.lookup?_register]
  split
  next hsame =>
    rw [← hsame, hc] at hd
    cases hd
  · exact h name d hd

theorem Registry.KeepsStandard.constructor?_eq {r : Registry} (h : r.KeepsStandard)
    {s : AnnotationSchema} {k : Constructor}
    (hk : ((Registry.standard.describe? s.name).bind fun c => c.constructor?) = some k) :
    ((r.describe? s.name).bind fun c => c.constructor?) = some k := by
  obtain ⟨c, hc, hkc⟩ := Option.bind_eq_some_iff.1 hk
  rw [h _ _ hc]
  exact hkc

inductive RecordError.OfAttribute (classes : Hierarchy) : RecordError → Prop
  | inherited {found : String} : found ≠ StandardName.singleAttribute →
      classes found StandardName.singleAttribute = true →
      OfAttribute classes (.wrongClass StandardName.singleAttribute found)
  | unnamed : OfAttribute classes (.missing StandardName.singleAttribute "name")
  | misnamed {actual : String} :
      OfAttribute classes (.invalid StandardName.singleAttribute "name" "string" actual)

inductive RecordError.OfIgnoredName : RecordError → Prop
  | misnamed {actual : String} :
      OfIgnoredName (.invalid StandardName.ignoreAnnotation "names" "string" actual)

section Results

variable {ε α β : Type}

theorem Except.exists_of_mapM_eq_error {f : α → Except ε β} {all : List α} {e : ε}
    (h : all.mapM f = .error e) : ∃ a ∈ all, f a = .error e := by
  induction all with
  | nil => cases h
  | cons a rest ih =>
    rw [List.mapM_cons] at h
    cases ha : f a with
    | error d =>
      rw [ha] at h
      obtain rfl := Except.error.inj h
      exact ⟨a, List.mem_cons_self, ha⟩
    | ok b =>
      rw [ha] at h
      cases hrest : rest.mapM f with
      | error d =>
        rw [hrest] at h
        obtain rfl := Except.error.inj h
        obtain ⟨c, hc, hlast⟩ := ih hrest
        exact ⟨c, List.mem_cons_of_mem a hc, hlast⟩
      | ok bs =>
        rw [hrest] at h
        cases h

end Results

namespace Record

theorem targetMask?_bits (t : Target) :
    targetMask? (.int (Int64.ofNat t.bits)) = some t := by
  obtain ⟨_ | _, _ | _, _ | _, _ | _, _ | _⟩ := t <;> rfl

theorem text_error {a : Annotation} {property : String} {e : RecordError}
    (h : text a property = .error e) : e = .missing a.className property ∨
      ∃ actual, e = .invalid a.className property "string" actual := by
  unfold text mandatory at h
  cases hset : a.properties.set? property with
  | none =>
    rw [hset] at h
    exact .inl (Except.error.inj h).symm
  | some v =>
    rw [hset] at h
    cases v with
    | string s => cases h
    | null | bool _ | int _ | float _ | array _ | object _ _ =>
      exact .inr ⟨_, (Except.error.inj h).symm⟩

theorem text_of_get? {a : Annotation} {property s : String}
    (h : a.get? property = some (.string s)) : text a property = .ok s := by
  have hset : a.properties.set? property = some (.string s) := set?_eq_some_iff.2 ⟨h, rfl⟩
  unfold text mandatory
  rw [hset]
  rfl

theorem map_of_get? {a : Annotation} {property : String} {items : OrderedMap Value}
    (h : a.get? property = some (.array items)) : map a property = .ok items := by
  unfold map
  rw [h]

theorem read_of_className {α : Type} {reader : RecordReader α} {a : Annotation}
    (h : a.className = reader.className) : reader.read a = reader.fields a := if_pos h

/-- Of an attribute everything can be read but possibly its name. -/
def IsAttribute (a : Annotation) : Prop :=
  (∃ b, flag a "required" = .ok b) ∧ ∃ s, text a "type" = .ok s

theorem singleAttribute_error {classes : Hierarchy} {a : Annotation} {e : RecordError}
    (hread : a.className = StandardName.singleAttribute → IsAttribute a)
    (hclass : classes a.className StandardName.singleAttribute = true)
    (h : singleAttribute.read a = .error e) : e.OfAttribute classes := by
  unfold RecordReader.read at h
  by_cases hsame : a.className = singleAttribute.className
  · rw [if_pos hsame] at h
    obtain ⟨⟨required, hflag⟩, typeName, htype⟩ := hread hsame
    have hfields : singleAttribute.fields a = (text a "name").map fun name =>
        ⟨name, typeName, required⟩ := by
      unfold singleAttribute
      dsimp only
      rw [hflag, htype]
      cases text a "name" <;> rfl
    rw [hfields] at h
    cases hname : text a "name" with
    | ok name =>
      rw [hname] at h
      cases h
    | error d =>
      rw [hname] at h
      obtain rfl := Except.error.inj h
      have hclassName : a.className = StandardName.singleAttribute := hsame
      obtain rfl | ⟨actual, rfl⟩ := text_error hname
      · rw [hclassName]
        exact .unnamed
      · rw [hclassName]
        exact .misnamed
  · rw [if_neg hsame] at h
    obtain rfl := Except.error.inj h
    exact .inherited hsame hclass

theorem ignoredNames_error {a : Annotation} {items : OrderedMap Value} {e : RecordError}
    (hclass : a.className = StandardName.ignoreAnnotation)
    (hnames : a.get? "names" = some (.array items)) (h : ignoredNames.read a = .error e) :
    e.OfIgnoredName := by
  rw [read_of_className hclass] at h
  unfold ignoredNames at h
  dsimp only at h
  rw [map_of_get? hnames] at h
  obtain ⟨item, -, hitem⟩ := Except.exists_of_mapM_eq_error h
  cases item with
  | string s => cases hitem
  | null | bool _ | int _ | float _ | array _ | object _ _ =>
    obtain rfl := Except.error.inj hitem
    unfold invalid
    rw [hclass]
    exact .misnamed

end Record

namespace Standard

open Record

theorem targets_of_mask {a : Annotation} {mask : Value} {t : Target} {literal : String}
    (hmask : mandatory a "targets" = .ok mask) (ht : targetMask? mask = some t)
    (hliteral : text a "literal" = .ok literal) : targets.fields a = .ok ⟨t, literal⟩ := by
  simp only [targets, hmask, ht, hliteral, bind, Except.bind]

theorem targets_of_constructTarget {className : String} {values : OrderedMap Value} {a : Annotation}
    (h : constructTarget className values = .ok a) : ∃ record, targets.fields a = .ok record := by
  obtain ⟨names, -, h⟩ := Except.exists_of_bind_eq_ok h
  obtain ⟨found, -, h⟩ := Except.exists_of_bind_eq_ok h
  obtain rfl := Except.ok.inj h
  exact ⟨_, targets_of_mask rfl (targetMask?_bits (found.foldl Target.union .none)) rfl⟩

theorem enumeration_of_constructEnumeration {className : String} {values : OrderedMap Value}
    {a : Annotation} (h : constructEnumeration className values = .ok a) :
    ∃ record, enumeration.fields a = .ok record := by
  obtain ⟨-, -, h⟩ := Except.exists_of_bind_eq_ok h
  obtain ⟨labels, -, h⟩ := Except.exists_of_bind_eq_ok h
  obtain ⟨-, -, h⟩ := Except.exists_of_bind_eq_ok h
  obtain rfl := Except.ok.inj h
  exact ⟨⟨(enumerators values).values, labels⟩, rfl⟩

theorem names_of_constructIgnoreAnnotation {className : String} {values : OrderedMap Value}
    {a : Annotation} (h : constructIgnoreAnnotation className values = .ok a) :
    ∃ items, a.get? "names" = some (.array items) := by
  unfold constructIgnoreAnnotation at h
  split at h
  · obtain rfl := Except.ok.inj h
    exact ⟨_, rfl⟩
  · obtain rfl := Except.ok.inj h
    exact ⟨_, rfl⟩
  · cases h

end Standard

namespace ValueType

variable {classes : Hierarchy} {v : Value}

theorem accepts_list_iff {element : ValueType} : (list element).accepts classes v = true ↔
    ∃ items, v = .array items ∧ ∀ item ∈ items.values, element.accepts classes item = true := by
  constructor
  · intro h
    cases v with
    | array items =>
      unfold accepts at h
      exact ⟨items, rfl, List.all_eq_true.1 h⟩
    | null | bool _ | int _ | float _ | string _ | object _ _ =>
      unfold accepts at h
      cases h
  · rintro ⟨items, rfl, h⟩
    exact PropertySchema.accepts_list h

theorem accepts_object_iff {ancestor : String} :
    (object (some ancestor)).accepts classes v = true ↔
      ∃ a : Annotation, v.object? = some a ∧ classes a.className ancestor = true := by
  cases v with
  | object className properties =>
    unfold accepts
    exact ⟨fun h => ⟨⟨className, properties⟩, rfl, h⟩, by rintro ⟨a, ⟨⟩, h⟩; exact h⟩
  | null | bool _ | int _ | float _ | string _ | array _ =>
    unfold accepts
    exact ⟨nofun, nofun⟩

theorem exists_items_of_accepts {type : PropertyType} (harray : type.isArray = true)
    (h : type.toValueType.accepts classes v = true) : ∃ items, v = .array items := by
  cases type with
  | named name declared => cases harray
  | array element declared =>
    cases element <;> obtain ⟨items, hitems, -⟩ := accepts_list_iff.1 h <;> exact ⟨items, hitems⟩

end ValueType

/-- The property is checked and stored under its own name only. -/
def PropertySchema.IsDirect (q : PropertySchema) : Prop := q.isDefault = false ∨ q.name = "value"

namespace AnnotationSchema

open PropertySchema

variable {s : AnnotationSchema} {registry : Registry} {place : Place} {values : OrderedMap Value}
  {q : PropertySchema} {a : Annotation}

theorem sourceName_of_isDirect (h : q.IsDirect) (values : OrderedMap Value) :
    q.sourceName values = q.name := by
  obtain hsame | ⟨hvalue, hdefault, -, -⟩ := q.sourceName_cases values
  · exact hsame
  · rcases h with hother | hname
    · rw [hdefault] at hother
      cases hother
    · rw [hvalue, hname]

theorem toString_of_receiver? (hs : s.WellFormed) (hq : q ∈ s.properties) (h : q.IsDirect)
    {key : Key} (hkey : s.receiver? key = some q.name) : key.toString = q.name := by
  unfold receiver? at hkey
  split at hkey
  · exact Option.some.inj hkey
  · split at hkey
    next hvalue =>
      obtain ⟨d, hd, hdname⟩ := Option.map_eq_some_iff.1 hkey
      have hdefault : d.isDefault = true := by simpa using List.find?_some hd
      obtain rfl := hs.eq_of_name (List.mem_of_find?_eq_some hd) hq hdname
      rcases h with hother | hname
      · rw [hdefault] at hother
        cases hother
      · rw [hvalue, Key.toString_ofString, hname]
    · cases hkey

theorem set?_eq_none_of_lastOf? (hs : s.WellFormed) (hq : q ∈ s.properties)
    (hlast : s.lastOf? values.entries q.name = none) : values.set? q.name = none := by
  cases hset : values.set? q.name with
  | none => rfl
  | some v =>
    have hmem := mem_of_lookup (set?_eq_some_iff.1 hset).1
    refine absurd ?_ (lastOf?_eq_none_iff.1 hlast _ hmem)
    unfold receiver?
    rw [Key.toString_ofString, hs.property?_eq hq]
    rfl

/-- What is of the type of a property stays so when the properties are through with it, if no other
property wraps arguments. -/
theorem accepts_left (hs : s.WellFormed) (hq : q ∈ s.properties)
    (halone : ∀ p ∈ s.properties, p.isArray = true → p.name = q.name) {classes : Hierarchy}
    {type : PropertyType} (htype : q.type? = some type) {v : Value}
    (h : type.toValueType.accepts classes v = true) :
    type.toValueType.accepts classes (left values s.properties q.name v) = true := by
  obtain hsame | ⟨-, hlist, hwraps, -⟩ := left_cases values s.properties q.name v
  · rw [hsame]
    exact h
  · -- The property itself wraps what is no list, and no list type accepts that.
    obtain ⟨p, hp, harray, -⟩ := wraps_eq_true_iff.1 hwraps
    obtain rfl := hs.eq_of_name hp hq (halone p hp harray)
    unfold PropertySchema.isArray at harray
    rw [htype] at harray
    obtain ⟨items, rfl⟩ := ValueType.exists_items_of_accepts harray h
    cases hlist

/-- What a direct property holds was checked for it, if no other property wraps arguments. -/
theorem fits_of_isDirect (hs : s.WellFormed) (hstyle : s.usesConstructor = false)
    (hvalues : values.IsNormal) (h : s.objectOf registry place values = .ok a)
    (hq : q ∈ s.properties) (hdirect : q.IsDirect)
    (halone : ∀ p ∈ s.properties, p.isArray = true → p.name = q.name) :
    (∃ v, a.get? q.name = some v ∧ q.Fits registry.isSubclass v) ∨
      (q.required = false ∧ a.get? q.name = (s.blank registry).get? q.name) := by
  obtain ⟨others, hchecked, hassigned⟩ := objectOf_ok hstyle h
  obtain ⟨hleaves, hoptional, haccepts⟩ := foldlM_check_ok hvalues hchecked
  have hget := get?_of_leaves hleaves hassigned q.name
  have hsource := sourceName_of_isDirect hdirect values
  cases hlast : s.lastOf? values.entries q.name with
  | none =>
    rw [hlast] at hget
    refine .inr ⟨hoptional q hq ?_, hget⟩
    rw [hsource]
    exact set?_eq_none_of_lastOf? hs hq hlast
  | some last =>
    obtain ⟨key, v⟩ := last
    have hkey := toString_of_receiver? hs hq hdirect (mem_of_lastOf? hlast).2
    obtain ⟨hnamed, -⟩ := named?_of_lastOf? hvalues hlast
    rw [hlast] at hget
    dsimp only at hget
    rw [hkey] at hget hnamed
    refine .inl ⟨_, hget, ?_⟩
    have hleft := isNull_left values s.properties q.name v
    cases hnull : v.isNull with
    | true =>
      have hunset : values.set? q.name = none := by
        unfold OrderedMap.set?
        rw [hnamed, Option.filter_some, if_neg (by simpa using hnull)]
      refine ⟨fun hrequired => ?_, fun type _ => .inl (hleft.trans hnull)⟩
      rw [hoptional q hq (by rw [hsource]; exact hunset)] at hrequired
      cases hrequired
    | false =>
      have hset : values.set? (q.sourceName values) = some v := by
        rw [hsource]
        exact set?_eq_some_iff.2 ⟨hnamed, hnull⟩
      refine ⟨fun _ => hleft.trans hnull, fun type htype => .inr ?_⟩
      have haccepted := haccepts q hq v type hset htype
      rw [hsource] at haccepted
      exact haccepted.elim (fun hplain => accepts_left hs hq halone htype hplain) id

theorem construct_of_objectOf {k : Constructor} (hstyle : s.usesConstructor = true)
    (hk : ((registry.describe? s.name).bind fun c => c.constructor?) = some k)
    (h : s.objectOf registry place values = .ok a) : ∃ others, k s.name others = .ok a := by
  obtain ⟨others, -, hmade⟩ := instantiate_of_objectOf h
  refine ⟨others, ?_⟩
  unfold instantiate construct at hmade
  rw [if_pos hstyle, hk] at hmade
  dsimp only at hmade
  cases hobject : k s.name others with
  | ok object =>
    rw [hobject] at hmade
    obtain rfl := Except.ok.inj hmade
    rfl
  | error reason =>
    rw [hobject] at hmade
    cases hmade

end AnnotationSchema

namespace Record

def Readable (a : Annotation) : Prop := a.className = StandardName.singleAttribute → IsAttribute a

section Standard

open AnnotationSchema SchemaTable

variable {registry : Registry} (hkeeps : registry.KeepsStandard) {place : Place}
  {given : List Argument} {a : Annotation}

include hkeeps

theorem blank_of_keepsStandard {s : AnnotationSchema}
    (h : (Registry.standard.describe? s.name).isSome = true) :
    s.blank registry = s.blank .standard := by
  obtain ⟨c, hc⟩ := Option.isSome_iff_exists.1 h
  unfold blank
  rw [hkeeps _ _ hc, hc]

theorem isAttribute_of_objectOf
    (h : standardAttribute.objectOf registry place (Argument.fold given) = .ok a) :
    IsAttribute a := by
  have hs : standardAttribute.WellFormed := wellFormed_standard List.mem_cons_self
  have hvalues := isNormal_fold given
  have hblank := blank_of_keepsStandard hkeeps (s := standardAttribute) rfl
  constructor
  · have hflag := fits_of_isDirect hs rfl hvalues h (.tail _ (.tail _ (.head _))) (.inl rfl)
      (by decide)
    obtain ⟨v, hget, hfits⟩ | ⟨-, hget⟩ := hflag
    · have htyped : v.isNull = true ∨ ValueType.boolean.accepts registry.isSubclass v = true :=
        hfits.typed _ rfl
      unfold flag
      rw [hget]
      cases v with
      | null => exact ⟨false, rfl⟩
      | bool b => exact ⟨b, rfl⟩
      | int _ | float _ | string _ | array _ | object _ _ =>
        unfold ValueType.accepts at htyped
        exact htyped.elim nofun nofun
    · rw [hblank] at hget
      refine ⟨false, ?_⟩
      unfold flag
      rw [hget]
      rfl
  · have htype := fits_of_isDirect hs rfl hvalues h (.tail _ (.head _)) (.inl rfl) (by decide)
    obtain ⟨v, hget, hfits⟩ | ⟨hoptional, -⟩ := htype
    · have hset : v.isNull = false := hfits.required rfl
      have htyped : v.isNull = true ∨ ValueType.string.accepts registry.isSubclass v = true :=
        hfits.typed _ rfl
      cases v with
      | string name => exact ⟨name, text_of_get? hget⟩
      | null => cases hset
      | bool _ | int _ | float _ | array _ | object _ _ =>
        unfold ValueType.accepts at htyped
        exact htyped.elim nofun nofun
    · cases hoptional

omit hkeeps in
/-- Attributes are a list of objects that are attributes or inherit from them. -/
theorem attributes_error {e : RecordError} (hclass : a.className = StandardName.attributes)
    (hall : a.properties.All (HoldsOnly Readable))
    (h : standardAttributes.objectOf registry place (Argument.fold given) = .ok a)
    (hread : attributes.read a = .error e) : e.OfAttribute registry.isSubclass := by
  have hs : standardAttributes.WellFormed := wellFormed_standard (.tail _ (.head _))
  have hlisted := fits_of_isDirect hs rfl (isNormal_fold given) h (.head _) (.inr rfl) (by decide)
  obtain ⟨v, hget, hfits⟩ | ⟨hoptional, -⟩ := hlisted
  · have hset : v.isNull = false := hfits.required rfl
    have htyped : v.isNull = true ∨
        (ValueType.list (.object (some StandardName.singleAttribute))).accepts registry.isSubclass
          v = true := hfits.typed _ rfl
    rw [hset] at htyped
    obtain ⟨items, rfl, hitems⟩ := ValueType.accepts_list_iff.1 (htyped.resolve_left nofun)
    rw [read_of_className hclass] at hread
    unfold attributes at hread
    dsimp only at hread
    rw [map_of_get? hget] at hread
    obtain ⟨item, hitem, herror⟩ := Except.exists_of_mapM_eq_error hread
    obtain ⟨b, hobject, hinherits⟩ := ValueType.accepts_object_iff.1 (hitems item hitem)
    rw [hobject] at herror
    have hinside := (holdsOnly_array.1 (hall.named? hget)).values item hitem
    have hgood : Readable b := by
      cases item with
      | object className properties =>
        obtain rfl := Option.some.inj hobject
        exact hinside _ .self
      | null | bool _ | int _ | float _ | string _ | array _ => cases hobject
    exact singleAttribute_error hgood hinherits herror
  · cases hoptional

theorem targets_of_objectOf (hclass : a.className = StandardName.target)
    (h : standardTarget.objectOf registry place (Argument.fold given) = .ok a) :
    ∃ record, targets.read a = .ok record := by
  obtain ⟨others, hmade⟩ := construct_of_objectOf rfl
    (hkeeps.constructor?_eq (s := standardTarget) rfl) h
  rw [read_of_className hclass]
  exact Standard.targets_of_constructTarget hmade

theorem enumeration_of_objectOf (hclass : a.className = StandardName.enumeration)
    (h : standardEnumeration.objectOf registry place (Argument.fold given) = .ok a) :
    ∃ record, enumeration.read a = .ok record := by
  obtain ⟨others, hmade⟩ := construct_of_objectOf rfl
    (hkeeps.constructor?_eq (s := standardEnumeration) rfl) h
  rw [read_of_className hclass]
  exact Standard.enumeration_of_constructEnumeration hmade

theorem ignoredNames_error_of_objectOf {e : RecordError}
    (hclass : a.className = StandardName.ignoreAnnotation)
    (h : standardIgnoreAnnotation.objectOf registry place (Argument.fold given) = .ok a)
    (hread : ignoredNames.read a = .error e) : e.OfIgnoredName := by
  obtain ⟨others, hmade⟩ := construct_of_objectOf rfl
    (hkeeps.constructor?_eq (s := standardIgnoreAnnotation) rfl) h
  obtain ⟨items, hnames⟩ := Standard.names_of_constructIgnoreAnnotation hmade
  exact ignoredNames_error hclass hnames hread

end Standard

end Record

end Docblock
