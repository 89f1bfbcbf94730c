import Docblock.Proofs.Object.Arguments
import Docblock.Reading.Check

/-!
# What the checks leave of the arguments

Each property looks at one argument, and which one it is does not change while the properties are
checked. An argument that a property of an array type looks at is wrapped into a list unless it is
null or an array. When all checks succeed, every argument that a typed property looks at has the
type, as it was given or as it is left.
-/

namespace Docblock

namespace PropertySchema

variable {values others : OrderedMap Value} {properties : List PropertySchema}
  {p : PropertySchema} {name : String} {v : Value}

theorem sourceName_cases (p : PropertySchema) (values : OrderedMap Value) :
    p.sourceName values = p.name ∨ (p.sourceName values = "value" ∧ p.isDefault = true ∧
      values.set? p.name = none ∧ (values.set? "value").isSome = true) := by
  unfold sourceName
  split
  · next h =>
    rw [Bool.and_eq_true, Bool.and_eq_true, Option.isNone_iff_eq_none] at h
    exact .inr ⟨rfl, h.1.1, h.1.2, h.2⟩
  · exact .inl rfl

def isArray (p : PropertySchema) : Bool := p.type?.any PropertyType.isArray

def wraps (values : OrderedMap Value) (properties : List PropertySchema) (name : String) : Bool :=
  properties.any fun p => p.isArray && p.sourceName values == name

theorem wraps_eq_true_iff : wraps values properties name = true ↔
    ∃ p ∈ properties, p.isArray = true ∧ p.sourceName values = name := by
  simp [wraps]

def left (values : OrderedMap Value) (properties : List PropertySchema) (name : String)
    (v : Value) : Value :=
  if v.isNull || v.isArray || !wraps values properties name then v else .array (.ofValues [v])

theorem left_cases (values : OrderedMap Value) (properties : List PropertySchema) (name : String)
    (v : Value) : left values properties name v = v ∨
      (v.isNull = false ∧ v.isArray = false ∧ wraps values properties name = true ∧
        left values properties name v = .array (.ofValues [v])) := by
  unfold left
  by_cases hkeep : (v.isNull || v.isArray || !wraps values properties name) = true
  · rw [if_pos hkeep]
    exact .inl rfl
  · rw [if_neg hkeep]
    right
    simpa [and_assoc] using hkeep

theorem left_of_not_wraps (h : wraps values properties name = false) (v : Value) :
    left values properties name v = v := by
  simp [left, h]

theorem isNull_left (values : OrderedMap Value) (properties : List PropertySchema) (name : String)
    (v : Value) : (left values properties name v).isNull = v.isNull := by
  obtain h | ⟨hnull, -, -, h⟩ := left_cases values properties name v
  · rw [h]
  · rw [h, hnull]
    rfl

def Leaves (values : OrderedMap Value) (properties : List PropertySchema)
    (others : OrderedMap Value) : Prop :=
  others.entries = values.entries.map fun e => (e.1, left values properties e.1.toString e.2)

theorem Leaves.keys_eq (h : Leaves values properties others) : others.keys = values.keys := by
  unfold OrderedMap.keys
  rw [h, List.map_map]
  rfl

theorem Leaves.isNormal (h : Leaves values properties others) (hvalues : values.IsNormal) :
    others.IsNormal := by
  constructor
  · rw [h.keys_eq]
    exact hvalues.distinct
  · rw [h.keys_eq]
    exact hvalues.normal

theorem Leaves.named? (h : Leaves values properties others) (name : String) :
    others.named? name = (values.named? name).map (left values properties name) := by
  unfold OrderedMap.named? OrderedMap.get?
  rw [h, OrderedMap.lookup_map fun key v => left values properties key.toString v,
    Key.toString_ofString]

theorem Leaves.set? (h : Leaves values properties others) (name : String) :
    others.set? name = (values.set? name).map (left values properties name) := by
  unfold OrderedMap.set?
  rw [h.named? name]
  cases values.named? name with
  | none => rfl
  | some v =>
    rw [Option.map_some, Option.filter_some, Option.filter_some, isNull_left]
    by_cases hnull : v.isNull = true
    · simp [hnull]
    · simp [hnull]

/-- The checks do not change at which argument a property looks. -/
theorem Leaves.sourceName_eq (h : Leaves values properties others) (p : PropertySchema) :
    p.sourceName others = p.sourceName values := by
  unfold sourceName
  rw [h.set? p.name, h.set? "value", Option.isNone_map, Option.isSome_map]

theorem Leaves.wraps_eq (h : Leaves values properties others) (more : List PropertySchema)
    (name : String) : wraps others more name = wraps values more name := by
  unfold wraps
  congr 1
  funext p
  rw [h.sourceName_eq p]

theorem Leaves.left_left (h : Leaves values [p] others) (more : List PropertySchema) (name : String)
    (v : Value) :
    left others more name (left values [p] name v) = left values (p :: more) name v := by
  have hcons : wraps values (p :: more) name =
      (wraps values [p] name || wraps values more name) := by
    simp [wraps]
  unfold left
  rw [h.wraps_eq more name, hcons]
  by_cases hsimple : (v.isNull || v.isArray) = true
  · simp [hsimple]
  · obtain ⟨hnull, harray⟩ : v.isNull = false ∧ v.isArray = false := by simpa using hsimple
    have hlist : (Value.array (.ofValues [v])).isArray = true := rfl
    by_cases hfirst : wraps values [p] name = true
    · simp [hnull, harray, hfirst, hlist]
    · simp [hnull, harray, hfirst]

theorem Leaves.left_kept (h : Leaves values [p] others) (more : List PropertySchema) (name : String)
    (v : Value) : left values [p] name v = v ∨
      left values (p :: more) name v = left values [p] name v := by
  obtain hsame | ⟨-, -, -, hwrapped⟩ := left_cases values [p] name v
  · exact .inl hsame
  · right
    rw [← h.left_left more name v, hwrapped]
    rfl

theorem Leaves.trans (h : Leaves values [p] others) {more : List PropertySchema}
    {last : OrderedMap Value} (hmore : Leaves others more last) :
    Leaves values (p :: more) last := by
  unfold Leaves
  rw [hmore, h, List.map_map]
  apply List.map_congr_left
  intro e _
  change (e.1, left others more e.1.toString (left values [p] e.1.toString e.2)) = _
  rw [h.left_left]

theorem leaves_self (h : ∀ e ∈ values.entries, left values properties e.1.toString e.2 = e.2) :
    Leaves values properties values := by
  unfold Leaves
  have hsame : ∀ e ∈ values.entries, (e.1, left values properties e.1.toString e.2) = e := by
    intro e he
    rw [h e he]
  rw [List.map_congr_left hsame, List.map_id']

variable {classes : Hierarchy} {place : Place}

theorem wraps_single (values : OrderedMap Value) (p : PropertySchema) (name : String) :
    wraps values [p] name = (p.isArray && p.sourceName values == name) := by
  simp [wraps]

theorem leaves_of_not_isArray (h : p.isArray = false) : Leaves values [p] values := by
  apply leaves_self
  intro e _
  apply left_of_not_wraps
  rw [wraps_single, h, Bool.false_and]

theorem entry_of_source (p : PropertySchema) (hvalues : values.IsNormal) {e : Key × Value}
    (he : e ∈ values.entries) :
    (e.1 = .ofString (p.sourceName values) ∧ p.sourceName values = e.1.toString ∧
      values.named? (p.sourceName values) = some e.2) ∨
      (e.1 ≠ .ofString (p.sourceName values) ∧ wraps values [p] e.1.toString = false) := by
  by_cases hsame : e.1 = .ofString (p.sourceName values)
  · left
    have hmem : (.ofString (p.sourceName values), e.2) ∈ values.entries := by
      rw [← hsame]
      exact he
    refine ⟨hsame, ?_, (OrderedMap.lookup_eq_some_iff hvalues.distinct).2 hmem⟩
    rw [hsame, Key.toString_ofString]
  · right
    have hother : p.sourceName values ≠ e.1.toString := by
      intro hname
      apply hsame
      rw [hname, hvalues.normal e.1 (List.mem_map_of_mem he)]
    rw [wraps_single, beq_false_of_ne hother, Bool.and_false]
    exact ⟨hsame, rfl⟩

/-- An array property leaves the argument it looks at as a list. -/
theorem leaves_listed (hvalues : values.IsNormal) (harray : p.isArray = true)
    (hv : values.set? (p.sourceName values) = some v) :
    Leaves values [p] (listed values (p.sourceName values) v) := by
  obtain ⟨hnamed, hnull⟩ := OrderedMap.set?_eq_some_iff.1 hv
  unfold listed
  by_cases hlist : v.isArray = true
  · rw [if_pos hlist]
    apply leaves_self
    intro e he
    obtain ⟨-, -, hvalue⟩ | ⟨-, hwraps⟩ := entry_of_source p hvalues he
    · obtain rfl : v = e.2 := Option.some.inj (hnamed.symm.trans hvalue)
      simp [left, hlist]
    · exact left_of_not_wraps hwraps e.2
  · rw [if_neg hlist]
    have hmem := (OrderedMap.lookup_eq_some_iff hvalues.distinct).1 hnamed
    have hpresent : Key.ofString (p.sourceName values) ∈ values.entries.map Prod.fst :=
      List.mem_map_of_mem hmem
    unfold Leaves
    rw [OrderedMap.entries_insert, OrderedMap.assign_of_present hvalues.distinct hpresent]
    apply List.map_congr_left
    intro e he
    obtain ⟨hkey, hname, hvalue⟩ | ⟨hkey, hwraps⟩ := entry_of_source p hvalues he
    · obtain rfl : v = e.2 := Option.some.inj (hnamed.symm.trans hvalue)
      rw [if_pos hkey]
      simp [left, wraps_single, harray, hnull, hlist, ← hname]
    · rw [if_neg hkey, left_of_not_wraps hwraps]

theorem accepts_list {element : ValueType} {items : OrderedMap Value}
    (h : ∀ item ∈ items.values, element.accepts classes item = true) :
    (ValueType.list element).accepts classes (.array items) = true := by
  unfold ValueType.accepts
  exact List.all_eq_true.2 h

theorem leaves_of_unset (hvalues : values.IsNormal)
    (hunset : values.set? (p.sourceName values) = none) : Leaves values [p] values := by
  apply leaves_self
  intro e he
  obtain ⟨-, -, hvalue⟩ | ⟨-, hwraps⟩ := entry_of_source p hvalues he
  · have hnull : e.2.isNull = true := by
      by_cases hnull : e.2.isNull = true
      · exact hnull
      · have hset := OrderedMap.set?_eq_some_iff.2 ⟨hvalue, by simpa using hnull⟩
        rw [hunset] at hset
        cases hset
    simp [left, hnull]
  · exact left_of_not_wraps hwraps e.2

theorem accepts_of_misfit? {element : ValueType} {items : OrderedMap Value}
    (h : misfit? classes element (some (.array items)) = none) :
    (ValueType.list element).accepts classes (.array items) = true := by
  apply accepts_list
  intro item hitem
  have hfound : items.values.find? (fun item => !element.accepts classes item) = none := h
  rw [List.find?_eq_none] at hfound
  simpa using hfound item hitem

theorem exists_items (values : OrderedMap Value) (harray : p.isArray = true)
    (hnull : v.isNull = false) : ∃ items, left values [p] (p.sourceName values) v = .array items := by
  by_cases hlist : v.isArray = true
  · cases v with
    | array items => exact ⟨items, by simp [left, Value.isArray]⟩
    | _ => cases hlist
  · exact ⟨.ofValues [v], by simp [left, wraps_single, harray, hnull, hlist]⟩

theorem check_of_unset (hvalues : values.IsNormal)
    (hunset : values.set? (p.sourceName values) = none)
    (h : p.check classes place values = .ok others) :
    Leaves values [p] others ∧ p.required = false := by
  unfold check at h
  dsimp only at h
  rw [hunset] at h
  dsimp only at h
  by_cases hrequired : p.required = true
  · rw [if_pos hrequired] at h
    cases h
  · rw [if_neg hrequired] at h
    obtain rfl := Except.ok.inj h
    exact ⟨leaves_of_unset hvalues hunset, by simpa using hrequired⟩

theorem check_of_named (hv : values.set? (p.sourceName values) = some v)
    {typeName declared : String} (htype : p.type? = some (.named typeName declared))
    (h : p.check classes place values = .ok others) :
    Leaves values [p] others ∧ (PropertyType.named typeName declared).toValueType.accepts classes
      (left values [p] (p.sourceName values) v) = true := by
  have harray : p.isArray = false := by simp [isArray, htype, PropertyType.isArray]
  have hkeeps : left values [p] (p.sourceName values) v = v := by
    apply left_of_not_wraps
    rw [wraps_single, harray, Bool.false_and]
  unfold check at h
  dsimp only at h
  rw [hv, htype] at h
  dsimp only at h
  by_cases haccepts : (ValueType.ofName typeName).accepts classes v = true
  · rw [if_pos haccepts] at h
    obtain rfl := Except.ok.inj h
    rw [hkeeps]
    exact ⟨leaves_of_not_isArray harray, haccepts⟩
  · rw [if_neg haccepts] at h
    cases h

theorem check_of_array (hvalues : values.IsNormal)
    (hv : values.set? (p.sourceName values) = some v) {element : Option String} {declared : String}
    (htype : p.type? = some (.array element declared))
    (h : p.check classes place values = .ok others) :
    Leaves values [p] others ∧ (PropertyType.array element declared).toValueType.accepts classes
      (left values [p] (p.sourceName values) v) = true := by
  obtain ⟨-, hnull⟩ := OrderedMap.set?_eq_some_iff.1 hv
  have harray : p.isArray = true := by simp [isArray, htype, PropertyType.isArray]
  have hleaves := leaves_listed hvalues harray hv
  obtain ⟨items, hitems⟩ := exists_items values harray hnull
  have hfound : (listed values (p.sourceName values) v).set? (p.sourceName values) =
      some (.array items) := by
    rw [hleaves.set? (p.sourceName values), hv, Option.map_some, hitems]
  unfold check at h
  dsimp only at h
  rw [hv, htype] at h
  rw [hitems]
  cases element with
  | none =>
    obtain rfl := Except.ok.inj h
    refine ⟨hleaves, accepts_list ?_⟩
    intro item _
    unfold ValueType.accepts
    rfl
  | some element =>
    dsimp only at h
    rw [hfound] at h
    cases hmisfit : misfit? classes (.ofName element) (some (.array items)) with
    | some item =>
      rw [hmisfit] at h
      cases h
    | none =>
      rw [hmisfit] at h
      obtain rfl := Except.ok.inj h
      exact ⟨hleaves, accepts_of_misfit? hmisfit⟩

theorem check_of_set (hvalues : values.IsNormal)
    (hv : values.set? (p.sourceName values) = some v)
    (h : p.check classes place values = .ok others) :
    Leaves values [p] others ∧ ∀ type, p.type? = some type →
      type.toValueType.accepts classes (left values [p] (p.sourceName values) v) = true := by
  cases htype : p.type? with
  | none =>
    unfold check at h
    dsimp only at h
    rw [hv, htype] at h
    obtain rfl := Except.ok.inj h
    have harray : p.isArray = false := by simp [isArray, htype]
    refine ⟨leaves_of_not_isArray harray, ?_⟩
    intro type hsome
    cases hsome
  | some type =>
    have hchecked : Leaves values [p] others ∧
        type.toValueType.accepts classes (left values [p] (p.sourceName values) v) = true := by
      cases type with
      | named typeName declared => exact check_of_named hv htype h
      | array element declared => exact check_of_array hvalues hv htype h
    refine ⟨hchecked.1, ?_⟩
    intro other hother
    rw [← Option.some.inj hother]
    exact hchecked.2

/-- A property that is checked leaves the argument it looks at with its type. -/
theorem check_ok (hvalues : values.IsNormal) (h : p.check classes place values = .ok others) :
    Leaves values [p] others ∧ (values.set? (p.sourceName values) = none → p.required = false) ∧
      ∀ v type, values.set? (p.sourceName values) = some v → p.type? = some type →
        type.toValueType.accepts classes (left values [p] (p.sourceName values) v) = true := by
  cases hv : values.set? (p.sourceName values) with
  | none =>
    obtain ⟨hleaves, hoptional⟩ := check_of_unset hvalues hv h
    refine ⟨hleaves, fun _ => hoptional, ?_⟩
    intro v type hset
    cases hset
  | some w =>
    obtain ⟨hleaves, haccepts⟩ := check_of_set hvalues hv h
    constructor
    · exact hleaves
    · constructor
      · intro hnone
        cases hnone
      · intro v type hset htype
        rw [← Option.some.inj hset]
        exact haccepts type htype

end PropertySchema

namespace AnnotationSchema

open PropertySchema

variable {classes : Hierarchy} {place : Place} {values others : OrderedMap Value}

/-- Checked one after the other, properties leave every argument that one of them looks at with its
type, or with the type before a later property wrapped it. -/
theorem foldlM_check_ok {properties : List PropertySchema} (hvalues : values.IsNormal)
    (h : properties.foldlM (fun values p => p.check classes place values) values = .ok others) :
    Leaves values properties others ∧
      (∀ p ∈ properties, values.set? (p.sourceName values) = none → p.required = false) ∧
      ∀ p ∈ properties, ∀ v type, values.set? (p.sourceName values) = some v →
        p.type? = some type → type.toValueType.accepts classes v = true ∨
          type.toValueType.accepts classes
            (left values properties (p.sourceName values) v) = true := by
  induction properties generalizing values with
  | nil =>
    obtain rfl := Except.ok.inj h
    refine ⟨leaves_self fun e _ => left_of_not_wraps rfl e.2, ?_, ?_⟩
    · intro p hp
      cases hp
    · intro p hp
      cases hp
  | cons first rest ih =>
    rw [List.foldlM_cons] at h
    cases hcheck : first.check classes place values with
    | error e =>
      rw [hcheck] at h
      cases h
    | ok next =>
      rw [hcheck] at h
      obtain ⟨hleaves, hoptional, haccepts⟩ := check_ok hvalues hcheck
      obtain ⟨hmore, hlater, hlast⟩ := ih (hleaves.isNormal hvalues) h
      refine ⟨hleaves.trans hmore, ?_, ?_⟩
      · intro p hp hunset
        obtain rfl | hp := List.mem_cons.1 hp
        · exact hoptional hunset
        · apply hlater p hp
          rw [hleaves.sourceName_eq p, hleaves.set?, hunset, Option.map_none]
      · intro p hp v type hv htype
        have hsplit := hleaves.left_left rest (p.sourceName values) v
        have hfirst : type.toValueType.accepts classes
            (left values [first] (p.sourceName values) v) = true →
              type.toValueType.accepts classes v = true ∨ type.toValueType.accepts classes
                (left values (first :: rest) (p.sourceName values) v) = true := by
          intro haccepted
          obtain hsame | hsame := hleaves.left_kept rest (p.sourceName values) v
          · rw [hsame] at haccepted
            exact .inl haccepted
          · rw [hsame]
            exact .inr haccepted
        obtain rfl | hp := List.mem_cons.1 hp
        · exact hfirst (haccepts v type hv htype)
        · have hset : next.set? (p.sourceName next) =
              some (left values [first] (p.sourceName values) v) := by
            rw [hleaves.sourceName_eq p, hleaves.set?, hv, Option.map_some]
          have haccepted := hlast p hp _ type hset htype
          rw [hleaves.sourceName_eq p, hsplit] at haccepted
          obtain haccepted | haccepted := haccepted
          · exact hfirst haccepted
          · exact .inr haccepted

end AnnotationSchema

end Docblock
