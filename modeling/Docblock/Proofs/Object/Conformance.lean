import Docblock.Proofs.Object.Assigning
import Docblock.Proofs.Object.Checking

/-!
# Objects conform to their schemas

A required property should hold a value that is not null, and a property with a type that was given
an argument should hold null or a value of the type. One rule says which argument a property checks
and another which argument it stores. Where they disagree the property may hold what was never
checked, and a value that two properties check may be wrapped for the one after it was found right
for the other. These are all the ways in which an object fails to conform.
-/

namespace Docblock

theorem Except.exists_of_bind_eq_ok {ε α β : Type} {x : Except ε α} {f : α → Except ε β} {b : β}
    (h : (x >>= f) = .ok b) : ∃ a, x = .ok a ∧ f a = .ok b := by
  cases x with
  | error e => cases h
  | ok a => exact ⟨a, rfl, h⟩

open PropertySchema

structure PropertySchema.Fits (classes : Hierarchy) (q : PropertySchema) (v : Value) : Prop where
  required : q.required = true → v.isNull = false
  typed : ∀ type, q.type? = some type → v.isNull = true ∨ type.toValueType.accepts classes v = true

namespace AnnotationSchema

variable {s : AnnotationSchema} {registry : Registry} {place : Place} {values : OrderedMap Value}
  {q : PropertySchema} {a : Annotation}

/-- A property of an object made of the arguments holds what is declared. -/
structure Conforms (s : AnnotationSchema) (classes : Hierarchy) (values : OrderedMap Value)
    (a : Annotation) (q : PropertySchema) : Prop where
  required : q.required = true → ∃ v, a.get? q.name = some v ∧ v.isNull = false
  typed : ∀ type, q.type? = some type → (∃ e ∈ values.entries, s.receiver? e.1 = some q.name) →
    ∃ v, a.get? q.name = some v ∧ (v.isNull = true ∨ type.toValueType.accepts classes v = true)

/-- How the argument that is checked can fail to speak for what is stored. -/
inductive Slips (s : AnnotationSchema) (registry : Registry) (values : OrderedMap Value)
    (q : PropertySchema) : Prop where
  /-- Nothing is stored, and there is no default. -/
  | unset : q.required = true → s.lastOf? values.entries q.name = none →
      (∀ v, (s.blank registry).get? q.name = some v → v.isNull = true) → Slips s registry values q
  /-- Another argument is stored than the one that is checked. -/
  | unchecked {key : Key} {v : Value} : s.lastOf? values.entries q.name = some (key, v) →
      key ≠ .ofString (q.sourceName values) → ¬ q.Fits registry.isSubclass v →
      Slips s registry values q
  /-- The argument is wrapped for another property. -/
  | wrapped {v : Value} {type : PropertyType} {p : PropertySchema} :
      s.lastOf? values.entries q.name = some (.ofString (q.sourceName values), v) →
      q.type? = some type → v.isNull = false → v.isArray = false → p ∈ s.properties →
      p.isArray = true → p.sourceName values = q.sourceName values →
      type.toValueType.accepts registry.isSubclass (.array (.ofValues [v])) = false →
      Slips s registry values q

theorem named?_of_lastOf? (hvalues : values.IsNormal) {key : Key} {v : Value}
    (h : s.lastOf? values.entries q.name = some (key, v)) :
    values.named? key.toString = some v ∧ Key.ofString key.toString = key := by
  obtain ⟨hmem, -⟩ := mem_of_lastOf? h
  have hnormal := hvalues.normal key (List.mem_map_of_mem hmem)
  refine ⟨?_, hnormal⟩
  unfold OrderedMap.named? OrderedMap.get?
  rw [hnormal]
  exact (OrderedMap.lookup_eq_some_iff hvalues.distinct).2 hmem

/-- An argument that is stored without being checked is not wrapped either. -/
theorem left_of_unchecked (hs : s.WellFormed) (hq : q ∈ s.properties) (hvalues : values.IsNormal)
    {key : Key} {v : Value} (hlast : s.lastOf? values.entries q.name = some (key, v))
    (hkey : key ≠ .ofString (q.sourceName values)) :
    left values s.properties key.toString v = v := by
  obtain ⟨hnamed, hnormal⟩ := named?_of_lastOf? hvalues hlast
  obtain ⟨-, hreceiver⟩ := mem_of_lastOf? hlast
  obtain hsame | ⟨hnull, -, hwraps, -⟩ := left_cases values s.properties key.toString v
  · exact hsame
  · exfalso
    unfold receiver? at hreceiver
    by_cases hproperty : (s.property? key.toString).isSome = true
    · -- The argument has the name of the property and is set, so it is the one that is checked.
      rw [if_pos hproperty] at hreceiver
      have hname : key.toString = q.name := Option.some.inj hreceiver
      rw [hname] at hnamed hnormal
      obtain hsource | ⟨-, -, hunset, -⟩ := q.sourceName_cases values
      · rw [hsource, hnormal] at hkey
        exact hkey rfl
      · rw [OrderedMap.set?_eq_some_iff.2 ⟨hnamed, hnull⟩] at hunset
        cases hunset
    · -- The property is the default, and no other property looks at `value`.
      rw [if_neg hproperty] at hreceiver
      by_cases hvalue : key = .ofString "value"
      · rw [if_pos hvalue] at hreceiver
        have htext : key.toString = "value" := by rw [hvalue, Key.toString_ofString]
        rw [htext] at hproperty hwraps
        obtain ⟨d, hd, hdname⟩ := Option.map_eq_some_iff.1 hreceiver
        have hdefault : d.isDefault = true := by simpa using List.find?_some hd
        obtain rfl := hs.eq_of_name (List.mem_of_find?_eq_some hd) hq hdname
        obtain ⟨p, hp, -, hlooks⟩ := wraps_eq_true_iff.1 hwraps
        obtain hsource | ⟨-, hpdefault, -, -⟩ := p.sourceName_cases values
        · rw [hsource] at hlooks
          rw [← hlooks, hs.property?_eq hp] at hproperty
          exact hproperty rfl
        · obtain rfl := hs.eq_of_default hp hq hpdefault hdefault
          rw [hlooks] at hkey
          exact hkey hvalue
      · rw [if_neg hvalue] at hreceiver
        cases hreceiver

/-- An object is made of the arguments as the checks leave them. -/
theorem instantiate_of_objectOf (h : s.objectOf registry place values = .ok a) :
    ∃ others, s.checkProperties registry.isSubclass place values = .ok others ∧
      s.instantiate registry place others = .ok a := by
  obtain ⟨-, -, hchecked⟩ := Except.exists_of_bind_eq_ok h
  exact Except.exists_of_bind_eq_ok hchecked

theorem objectOf_ok (hstyle : s.usesConstructor = false)
    (h : s.objectOf registry place values = .ok a) :
    ∃ others, s.checkProperties registry.isSubclass place values = .ok others ∧
      s.assignAll place others (s.blank registry) others.entries = .ok a := by
  obtain ⟨others, hproperties, hassigned⟩ := instantiate_of_objectOf h
  unfold instantiate at hassigned
  rw [hstyle] at hassigned
  exact ⟨others, hproperties, hassigned⟩

theorem className_of_objectOf (hbare : ClassName.bare s.name = s.name)
    (hstyle : s.usesConstructor = false) (h : s.objectOf registry place values = .ok a) :
    a.className = s.name := by
  obtain ⟨others, -, hassigned⟩ := objectOf_ok hstyle h
  exact (className_assignAll hassigned).trans (className_blank hbare)

/-- What a property of the object holds: the last argument stored in it, as the checks leave it. -/
theorem get?_of_leaves {others : OrderedMap Value} (hleaves : Leaves values s.properties others)
    (h : s.assignAll place others (s.blank registry) others.entries = .ok a) (name : String) :
    a.get? name = match s.lastOf? values.entries name with
      | some (key, v) => some (left values s.properties key.toString v)
      | none => (s.blank registry).get? name := by
  rw [get?_assignAll h, hleaves,
    lastOf?_map fun key v => left values s.properties key.toString v]
  cases s.lastOf? values.entries name <;> rfl

/-- A property that holds one value conforms if and only if the value fits. -/
theorem conforms_iff_fits {v : Value} (hget : a.get? q.name = some v)
    (hgiven : ∃ e ∈ values.entries, s.receiver? e.1 = some q.name) :
    s.Conforms registry.isSubclass values a q ↔ q.Fits registry.isSubclass v := by
  constructor
  · intro h
    constructor
    · intro hrequired
      obtain ⟨w, hw, hnull⟩ := h.required hrequired
      rw [hget] at hw
      rw [Option.some.inj hw]
      exact hnull
    · intro type htype
      obtain ⟨w, hw, haccepts⟩ := h.typed type htype hgiven
      rw [hget] at hw
      rw [Option.some.inj hw]
      exact haccepts
  · intro h
    exact ⟨fun hrequired => ⟨v, hget, h.required hrequired⟩,
      fun type htype _ => ⟨v, hget, h.typed type htype⟩⟩

theorem slips_iff_of_none (hlast : s.lastOf? values.entries q.name = none) :
    s.Slips registry values q ↔ q.required = true ∧
      ∀ v, (s.blank registry).get? q.name = some v → v.isNull = true := by
  constructor
  · intro hslips
    cases hslips with
    | unset hrequired _ hblank => exact ⟨hrequired, hblank⟩
    | unchecked hsome => rw [hlast] at hsome; cases hsome
    | wrapped hsome => rw [hlast] at hsome; cases hsome
  · rintro ⟨hrequired, hblank⟩
    exact .unset hrequired hlast hblank

theorem slips_iff_of_unchecked {key : Key} {v : Value}
    (hlast : s.lastOf? values.entries q.name = some (key, v))
    (hkey : key ≠ .ofString (q.sourceName values)) :
    s.Slips registry values q ↔ ¬ q.Fits registry.isSubclass v := by
  constructor
  · intro hslips
    cases hslips with
    | unset _ hnone => rw [hlast] at hnone; cases hnone
    | unchecked hsome _ hmisfits =>
      rw [hlast] at hsome
      obtain ⟨-, rfl⟩ := Prod.mk.inj (Option.some.inj hsome)
      exact hmisfits
    | wrapped hsome =>
      rw [hlast] at hsome
      exact absurd (Prod.mk.inj (Option.some.inj hsome)).1 hkey
  · exact .unchecked hlast hkey

theorem slips_iff_of_checked {v : Value}
    (hlast : s.lastOf? values.entries q.name = some (.ofString (q.sourceName values), v)) :
    s.Slips registry values q ↔ v.isNull = false ∧ v.isArray = false ∧
      wraps values s.properties (q.sourceName values) = true ∧ ∃ type, q.type? = some type ∧
        type.toValueType.accepts registry.isSubclass (.array (.ofValues [v])) = false := by
  constructor
  · intro hslips
    cases hslips with
    | unset _ hnone => rw [hlast] at hnone; cases hnone
    | unchecked hsome hkey =>
      rw [hlast] at hsome
      exact absurd (Prod.mk.inj (Option.some.inj hsome)).1.symm hkey
    | @wrapped w type p hsome htype hnull hlist hp harray hlooks hrefused =>
      rw [hlast] at hsome
      obtain ⟨-, rfl⟩ := Prod.mk.inj (Option.some.inj hsome)
      exact ⟨hnull, hlist, wraps_eq_true_iff.2 ⟨p, hp, harray, hlooks⟩, type, htype, hrefused⟩
  · rintro ⟨hnull, hlist, hwraps, type, htype, hrefused⟩
    obtain ⟨p, hp, harray, hlooks⟩ := wraps_eq_true_iff.1 hwraps
    exact .wrapped hlast htype hnull hlist hp harray hlooks hrefused

/-- An argument that was checked for a property fits as it is left, unless it is wrapped. -/
theorem fits_left_iff {v : Value} (hnull : v.isNull = false)
    (haccepts : ∀ type, q.type? = some type →
      type.toValueType.accepts registry.isSubclass v = true ∨
        type.toValueType.accepts registry.isSubclass
          (left values s.properties (q.sourceName values) v) = true) :
    q.Fits registry.isSubclass (left values s.properties (q.sourceName values) v) ↔
      ¬ (v.isNull = false ∧ v.isArray = false ∧
        wraps values s.properties (q.sourceName values) = true ∧ ∃ type, q.type? = some type ∧
          type.toValueType.accepts registry.isSubclass (.array (.ofValues [v])) = false) := by
  have hleft := isNull_left values s.properties (q.sourceName values) v
  constructor
  · rintro hfits ⟨-, hlist, hwraps, type, htype, hrefused⟩
    have hwrapped : left values s.properties (q.sourceName values) v =
        .array (.ofValues [v]) := by
      simp [left, hnull, hlist, hwraps]
    rw [hwrapped] at hfits
    obtain hnone | haccepted := hfits.typed type htype
    · cases hnone
    · rw [hrefused] at haccepted
      cases haccepted
  · intro hslips
    refine ⟨fun _ => hleft.trans hnull, fun type htype => .inr ?_⟩
    obtain haccepted | haccepted := haccepts type htype
    · obtain hsame | ⟨-, hlist, hwraps, hwrapped⟩ :=
        left_cases values s.properties (q.sourceName values) v
      · rw [hsame]
        exact haccepted
      · rw [hwrapped]
        by_cases hright : type.toValueType.accepts registry.isSubclass
            (.array (.ofValues [v])) = true
        · exact hright
        · exact absurd ⟨hnull, hlist, hwraps, type, htype, by simpa using hright⟩ hslips
    · exact haccepted

/-- A property of a made object conforms if and only if what is stored in it was checked for it and
not wrapped afterwards, or is right by itself. -/
theorem conforms_iff_not_slips (hs : s.WellFormed) (hstyle : s.usesConstructor = false)
    (hvalues : values.IsNormal) (h : s.objectOf registry place values = .ok a)
    (hq : q ∈ s.properties) :
    s.Conforms registry.isSubclass values a q ↔ ¬ s.Slips registry values q := by
  obtain ⟨others, hchecked, hassigned⟩ := objectOf_ok hstyle h
  obtain ⟨hleaves, hoptional, haccepts⟩ := foldlM_check_ok hvalues hchecked
  have hget := get?_of_leaves hleaves hassigned q.name
  cases hlast : s.lastOf? values.entries q.name with
  | none =>
    rw [hlast] at hget
    rw [slips_iff_of_none hlast]
    constructor
    · rintro hconforms ⟨hrequired, hblank⟩
      obtain ⟨v, hv, hnull⟩ := hconforms.required hrequired
      rw [hget] at hv
      rw [hblank v hv] at hnull
      cases hnull
    · intro hslips
      constructor
      · intro hrequired
        by_cases hblank : ∀ v, (s.blank registry).get? q.name = some v → v.isNull = true
        · exact absurd ⟨hrequired, hblank⟩ hslips
        · simp only [Classical.not_forall, Bool.not_eq_true] at hblank
          obtain ⟨v, hv, hnull⟩ := hblank
          exact ⟨v, hget.trans hv, hnull⟩
      · rintro type - ⟨e, he, hreceiver⟩
        exact absurd hreceiver (lastOf?_eq_none_iff.1 hlast e he)
  | some last =>
    obtain ⟨key, v⟩ := last
    rw [hlast] at hget
    obtain ⟨hmem, hreceiver⟩ := mem_of_lastOf? hlast
    rw [conforms_iff_fits hget ⟨_, hmem, hreceiver⟩]
    by_cases hkey : key = .ofString (q.sourceName values)
    · rw [hkey] at hlast ⊢
      obtain ⟨hnamed, -⟩ := named?_of_lastOf? hvalues hlast
      rw [Key.toString_ofString] at hnamed ⊢
      rw [slips_iff_of_checked hlast]
      by_cases hnull : v.isNull = false
      · have hset := OrderedMap.set?_eq_some_iff.2 ⟨hnamed, hnull⟩
        exact fits_left_iff hnull fun type htype => haccepts q hq v type hset htype
      · -- A null argument counts as none, so the property is not required.
        have hunset : values.set? (q.sourceName values) = none := by
          unfold OrderedMap.set?
          rw [hnamed, Option.filter_some, if_neg (by simpa using hnull)]
        rw [Bool.not_eq_false] at hnull
        have hleft := isNull_left values s.properties (q.sourceName values) v
        constructor
        · rintro - ⟨hset, -⟩
          rw [hset] at hnull
          cases hnull
        · intro _
          refine ⟨fun hrequired => ?_, fun type _ => .inl (hleft.trans hnull)⟩
          rw [hoptional q hq hunset] at hrequired
          cases hrequired
    · rw [left_of_unchecked hs hq hvalues hlast hkey, slips_iff_of_unchecked hlast hkey,
        Classical.not_not]

end AnnotationSchema

end Docblock
