import Docblock.Class.Standard
import Docblock.Proofs.Object.Conformance
import Docblock.Proofs.Object.Made

/-!
# Annotations inside values

An annotation may lie in a value at any depth. Making an object puts nothing into it but its
arguments, the defaults of its class and what its constructor adds. If neither constants nor
defaults nor constructors bring annotations of their own, all annotations inside an object come
from its arguments.
-/

namespace Docblock

inductive Annotation.Inside (a : Annotation) : Value → Prop where
  | self : a.Inside (.object a.className a.properties)
  | item {items : OrderedMap Value} {e : Key × Value} :
      e ∈ items.entries → a.Inside e.2 → a.Inside (.array items)
  | property {className : String} {properties : OrderedMap Value} {e : Key × Value} :
      e ∈ properties.entries → a.Inside e.2 → a.Inside (.object className properties)

def Annotation.InsideOf (a : Annotation) (m : OrderedMap Value) : Prop :=
  ∃ e ∈ m.entries, a.Inside e.2

namespace OrderedMap

variable {α : Type} {P : α → Prop} {m : OrderedMap α}

def All (P : α → Prop) (m : OrderedMap α) : Prop := ∀ e ∈ m.entries, P e.2

theorem all_empty : (empty : OrderedMap α).All P := by
  intro e he
  cases he

theorem mem_assign {key : Key} {a : α} {entries : List (Key × α)} {e : Key × α}
    (he : e ∈ assign key a entries) : e = (key, a) ∨ e ∈ entries := by
  induction entries with
  | nil => exact .inl (List.mem_singleton.1 he)
  | cons entry rest ih =>
    unfold assign at he
    split at he
    · obtain rfl | he := List.mem_cons.1 he
      · exact .inl rfl
      · exact .inr (List.mem_cons_of_mem _ he)
    · obtain rfl | he := List.mem_cons.1 he
      · exact .inr List.mem_cons_self
      · exact (ih he).imp_right (List.mem_cons_of_mem _)

theorem All.insert (h : m.All P) (key : Key) {a : α} (ha : P a) : (m.insert key a).All P := by
  intro e he
  obtain rfl | he := mem_assign he
  · exact ha
  · exact h e he

theorem All.push (h : m.All P) {a : α} (ha : P a) : (m.push a).All P := h.insert _ ha

theorem all_ofValues {values : List α} (h : ∀ a ∈ values, P a) : (ofValues values).All P :=
  List.foldlRecOn values _ all_empty fun _ hm a ha => hm.push (h a ha)

theorem All.modify (h : m.All P) {key : Key} {f : α → α} (hf : ∀ a, P a → P (f a)) :
    (m.modify key f).All P := by
  intro e he
  obtain ⟨entry, hentry, rfl⟩ := List.mem_map.1 he
  split
  · exact hf _ (h entry hentry)
  · exact h entry hentry

theorem mem_of_lookup {key : Key} {a : α} {entries : List (Key × α)}
    (h : lookup key entries = some a) : (key, a) ∈ entries := by
  induction entries with
  | nil => cases h
  | cons entry rest ih =>
    unfold lookup at h
    split at h
    · next hkey =>
      rw [← Option.some.inj h, ← hkey]
      exact List.mem_cons_self
    · exact List.mem_cons_of_mem _ (ih h)

theorem All.named? (h : m.All P) {name : String} {a : α} (ha : m.named? name = some a) : P a :=
  h _ (mem_of_lookup ha)

theorem All.set? {P : Value → Prop} {m : OrderedMap Value} (h : m.All P) {name : String} {v : Value}
    (hv : m.set? name = some v) : P v :=
  h.named? (OrderedMap.set?_eq_some_iff.1 hv).1

theorem All.values (h : m.All P) : ∀ a ∈ m.values, P a := by
  intro a ha
  obtain ⟨e, he, rfl⟩ := List.mem_map.1 ha
  exact h e he

end OrderedMap

open OrderedMap

def Value.HoldsOnly (good : Annotation → Prop) (v : Value) : Prop := ∀ a, a.Inside v → good a

namespace Value

variable {good : Annotation → Prop} {items : OrderedMap Value} {v : Value}

theorem holdsOnly_array : (Value.array items).HoldsOnly good ↔ items.All (HoldsOnly good) := by
  constructor
  · intro h e he a ha
    exact h a (.item he ha)
  · rintro h a (_ | ⟨he, ha⟩ | _)
    exact h _ he a ha

theorem holdsOnly_object {a : Annotation} (hself : good a)
    (hall : a.properties.All (HoldsOnly good)) :
    (Value.object a.className a.properties).HoldsOnly good := by
  obtain ⟨className, properties⟩ := a
  rintro ⟨otherName, others⟩ (_ | _ | ⟨he, hb⟩)
  · exact hself
  · exact hall _ he _ hb

theorem holdsOnly_simple (h : v.isNull = true ∨ v.isScalar = true) : v.HoldsOnly good := by
  rintro a (_ | _ | _)
  all_goals obtain h | h := h <;> cases h

end Value

open Value

/-- The object of a constructor is of the class, and the annotations in it are in the arguments. -/
def Constructor.Keeps (constructor : Constructor) : Prop :=
  ∀ className values a, constructor className values = .ok a → a.className = className ∧
    ∀ b : Annotation, b.InsideOf a.properties → b.InsideOf values

namespace Constructor

variable {constructor : Constructor}

theorem keeps_of_all (h : ∀ className values a, constructor className values = .ok a →
    a.className = className ∧ ∀ good, values.All (HoldsOnly good) →
      a.properties.All (HoldsOnly good)) : constructor.Keeps := by
  intro className values a hobject
  obtain ⟨hname, hall⟩ := h className values a hobject
  refine ⟨hname, ?_⟩
  rintro b ⟨e, he, hb⟩
  exact hall (fun c => c.InsideOf values) (fun f hf c hc => ⟨f, hf, hc⟩) e he b hb

end Constructor

namespace Standard

theorem keeps_constructTarget : Constructor.Keeps constructTarget := by
  refine Constructor.keeps_of_all fun className values a h => ?_
  obtain ⟨names, hnames, h⟩ := Except.exists_of_bind_eq_ok h
  obtain ⟨targets, -, h⟩ := Except.exists_of_bind_eq_ok h
  obtain rfl := Except.ok.inj h
  refine ⟨rfl, fun good hall => ?_⟩
  have hlisted : ∀ v ∈ names, v.HoldsOnly good := by
    unfold targetNames at hnames
    split at hnames
    · obtain rfl := Except.ok.inj hnames
      simpa using holdsOnly_simple (.inr rfl)
    · next items hitems =>
      obtain rfl := Except.ok.inj hnames
      exact All.values (holdsOnly_array.1 (hall.set? hitems))
    · cases hnames
  have hnamed := holdsOnly_array.2 (all_ofValues hlisted)
  exact ((all_empty.insert _ hnamed).insert _ (holdsOnly_simple (.inr rfl))).insert _
    (holdsOnly_simple (.inr rfl))

theorem keeps_constructEnumeration : Constructor.Keeps constructEnumeration := by
  refine Constructor.keeps_of_all fun className values a h => ?_
  obtain ⟨-, -, h⟩ := Except.exists_of_bind_eq_ok h
  obtain ⟨labels, hlabels, h⟩ := Except.exists_of_bind_eq_ok h
  obtain ⟨-, -, h⟩ := Except.exists_of_bind_eq_ok h
  obtain rfl := Except.ok.inj h
  refine ⟨rfl, fun good hall => ?_⟩
  have hitems : (enumerators values).All (HoldsOnly good) := by
    unfold enumerators
    split
    · next items hset => exact holdsOnly_array.1 (hall.set? hset)
    · next single hset => exact all_ofValues (by simpa using hall.set? hset)
    · exact all_empty
  have hlabelled : labels.All (HoldsOnly good) := by
    unfold enumeratorLabels at hlabels
    split at hlabels
    · next items hset =>
      obtain rfl := Except.ok.inj hlabels
      exact holdsOnly_array.1 (hall.set? hset)
    · cases hlabels
    · obtain rfl := Except.ok.inj hlabels
      exact all_empty
  exact (all_empty.insert _ (holdsOnly_array.2 hitems)).insert _ (holdsOnly_array.2 hlabelled)

theorem keeps_constructIgnoreAnnotation : Constructor.Keeps constructIgnoreAnnotation := by
  refine Constructor.keeps_of_all fun className values a h => ?_
  unfold constructIgnoreAnnotation at h
  split at h
  · obtain rfl := Except.ok.inj h
    refine ⟨rfl, fun good _ => all_empty.insert _ (holdsOnly_array.2 (all_ofValues ?_))⟩
    simpa using holdsOnly_simple (.inr rfl)
  · next items hnamed =>
    obtain rfl := Except.ok.inj h
    exact ⟨rfl, fun good hall => all_empty.insert _ (hall.named? hnamed)⟩
  · cases h

end Standard

/-- A class whose constants and defaults hold no annotations and whose constructor adds none. -/
structure ClassDeclaration.IsInert (c : ClassDeclaration) : Prop where
  constants : ∀ e ∈ c.constants, ∀ a : Annotation, ¬ a.Inside e.2
  defaults : ∀ q ∈ c.properties, ∀ a : Annotation, ¬ a.Inside q.default
  constructor : ∀ k, c.constructor? = some k → k.Keeps

structure Registry.IsInert (r : Registry) : Prop where
  constants : ∀ e ∈ r.constants, ∀ a : Annotation, ¬ a.Inside e.2
  classes : ∀ c ∈ r.classes, c.IsInert

theorem Registry.inert_empty : Registry.empty.IsInert := ⟨by simp [Registry.empty],
  by simp [Registry.empty]⟩

theorem Registry.mem_put {c d : ClassDeclaration} {classes : List ClassDeclaration}
    (h : d ∈ Registry.put c classes) : d = c ∨ d ∈ classes := by
  induction classes with
  | nil => exact .inl (List.mem_singleton.1 h)
  | cons first rest ih =>
    unfold Registry.put at h
    split at h
    · exact (List.mem_cons.1 h).imp_right (List.mem_cons_of_mem _)
    · obtain rfl | h := List.mem_cons.1 h
      · exact .inr List.mem_cons_self
      · exact (ih h).imp_right (List.mem_cons_of_mem _)

theorem Registry.IsInert.register {r : Registry} (h : r.IsInert) {c : ClassDeclaration}
    (hc : c.IsInert) : (r.register c).IsInert := by
  refine ⟨h.constants, fun d hd => ?_⟩
  obtain rfl | hd := Registry.mem_put hd
  · exact hc
  · exact h.classes d hd

theorem inert_make {name doc : String} {properties : List PropertyDeclaration}
    {ancestors : List String} {constructor? : Option Constructor}
    (hdefaults : ∀ q ∈ properties, q.default.isNull = true ∨ q.default.isScalar = true)
    (hconstructor : ∀ k, constructor? = some k → k.Keeps) :
    (ClassDeclaration.make name doc properties ancestors [] constructor?).IsInert where
  constants e he := by cases he
  defaults q hq := by
    have hsimple : q.default.HoldsOnly fun _ => False := holdsOnly_simple (hdefaults q hq)
    exact hsimple
  constructor := hconstructor

theorem Standard.inert_classes : ∀ c ∈ Standard.classes, c.IsInert := by
  have hnone : ∀ k : Constructor, none = some k → k.Keeps := nofun
  have hsome {constructor : Constructor} (h : constructor.Keeps) :
      ∀ k, some constructor = some k → k.Keeps := by
    rintro k ⟨⟩
    exact h
  unfold Standard.classes
  simp only [List.forall_mem_cons, List.not_mem_nil, false_implies, implies_true, and_true]
  refine ⟨inert_make (by decide) hnone, inert_make (by decide) (hsome keeps_constructTarget),
    inert_make (by decide) (hsome keeps_constructEnumeration), inert_make (by decide) hnone,
    inert_make (by decide) hnone, inert_make (by decide) hnone,
    inert_make (by decide) (hsome keeps_constructIgnoreAnnotation)⟩

/-- The standard classes bring no annotations of their own. -/
theorem Registry.inert_standard : Registry.standard.IsInert :=
  List.foldlRecOn Standard.classes _ Registry.inert_empty fun _ h c hc =>
    h.register (Standard.inert_classes c hc)

section Objects

variable {registry : Registry} (hregistry : registry.IsInert) {good : Annotation → Prop}
  {s : AnnotationSchema} {place : Place} {values : OrderedMap Value} {a : Annotation}

theorem mem_of_lookup_eq_some {name : String} {v : Value} {constants : List (String × Value)}
    (h : constants.lookup name = some v) : (name, v) ∈ constants := by
  obtain ⟨front, back, rfl, -⟩ := List.lookup_eq_some_iff.1 h
  simp

include hregistry

theorem Registry.IsInert.constant {reference : String} {v : Value}
    (h : referenceValue? registry reference = some v) : v.HoldsOnly good := by
  unfold referenceValue? at h
  split at h
  · obtain rfl := Option.some.inj h
    exact holdsOnly_simple (.inr rfl)
  · intro a ha
    unfold Registry.constant? at h
    split at h
    · obtain ⟨c, hc, hv⟩ := Option.bind_eq_some_iff.1 h
      have hinert := hregistry.classes c (Registry.mem_of_describe? hc)
      exact absurd ha (hinert.constants _ (mem_of_lookup_eq_some hv) a)
    · exact absurd ha (hregistry.constants _ (mem_of_lookup_eq_some h) a)

theorem Registry.IsInert.valueRule : ValueRule registry (HoldsOnly good) where
  literal _ := holdsOnly_simple
  constant _ _ := hregistry.constant
  collection entries h := by
    refine holdsOnly_array.2 (List.foldlRecOn entries _ all_empty fun m hm e he => ?_)
    have hvalue := h e he
    obtain ⟨_ | key, _ | v⟩ := e
    · exact hm
    · exact hm.push (hvalue v rfl)
    · exact hm
    · exact hm.insert key (hvalue v rfl)

omit hregistry in
/-- Folding arguments into one map puts nothing into it but them. -/
theorem all_fold {given : List Argument} (h : ∀ g ∈ given, g.value.HoldsOnly good) :
    (Argument.fold given).All (HoldsOnly good) := by
  refine List.foldlRecOn given _ all_empty fun m hm g hg => ?_
  have hvalue := h g hg
  cases g with
  | named name v => exact hm.insert _ hvalue
  | positional v =>
    unfold Argument.add
    dsimp only
    split
    · exact hm.insert _ hvalue
    · refine hm.modify fun first hfirst => holdsOnly_array.2 (All.push ?_ hvalue)
      unfold Argument.asList
      split
      · exact holdsOnly_array.1 hfirst
      · exact all_ofValues (by simpa using hfirst)

omit hregistry in
theorem PropertySchema.Leaves.all {properties : List PropertySchema} {others : OrderedMap Value}
    (h : Leaves values properties others) (hvalues : values.All (HoldsOnly good)) :
    others.All (HoldsOnly good) := by
  intro e he
  rw [h] at he
  obtain ⟨f, hf, rfl⟩ := List.mem_map.1 he
  obtain hsame | ⟨-, -, -, hwrapped⟩ := left_cases values properties f.1.toString f.2
  · rw [hsame]
    exact hvalues f hf
  · rw [hwrapped]
    exact holdsOnly_array.2 (all_ofValues (by simpa using hvalues f hf))

theorem Registry.IsInert.blank (s : AnnotationSchema) :
    (s.blank registry).properties.All (HoldsOnly good) := by
  unfold AnnotationSchema.blank
  split
  · next c hc =>
    have hdefaults := (hregistry.classes c (Registry.mem_of_describe? hc)).defaults
    refine List.foldlRecOn c.properties _ all_empty fun m hm q hq => hm.insert _ ?_
    exact fun b hb => absurd hb (hdefaults q hq b)
  · exact all_empty

omit hregistry in
theorem all_assignAll {all : OrderedMap Value} {object : Annotation} {entries : List (Key × Value)}
    (hobject : object.properties.All (HoldsOnly good))
    (hentries : ∀ e ∈ entries, e.2.HoldsOnly good)
    (h : s.assignAll place all object entries = .ok a) : a.properties.All (HoldsOnly good) := by
  induction entries generalizing object with
  | nil =>
    obtain rfl := Except.ok.inj h
    exact hobject
  | cons e rest ih =>
    obtain ⟨key, v⟩ := e
    unfold AnnotationSchema.assignAll at h
    cases hassign : s.assign place all object key v with
    | error e =>
      rw [hassign] at h
      cases h
    | ok next =>
      rw [hassign] at h
      obtain ⟨receiver, -, rfl⟩ := AnnotationSchema.assign_ok hassign
      exact ih (All.insert hobject _ (hentries (key, v) List.mem_cons_self))
        (fun f hf => hentries f (List.mem_cons_of_mem _ hf)) h

/-- What is built from arguments holds annotations of the arguments only. -/
theorem Registry.IsInert.all_instantiate (hbare : ClassName.bare s.name = s.name)
    (hvalues : values.All (HoldsOnly good))
    (h : s.instantiate registry place values = .ok a) :
    a.className = s.name ∧ a.properties.All (HoldsOnly good) := by
  unfold AnnotationSchema.instantiate at h
  split at h
  · unfold AnnotationSchema.construct at h
    split at h
    · next constructor hconstructor =>
      obtain ⟨c, hc, hstyle⟩ := Option.bind_eq_some_iff.1 hconstructor
      have hkeeps := (hregistry.classes c (Registry.mem_of_describe? hc)).constructor _ hstyle
      cases hobject : constructor s.name values with
      | error reason =>
        rw [hobject] at h
        cases h
      | ok object =>
        rw [hobject] at h
        obtain rfl := Except.ok.inj h
        obtain ⟨hname, hinside⟩ := hkeeps _ _ _ hobject
        refine ⟨hname, fun e he b hb => ?_⟩
        obtain ⟨f, hf, hb⟩ := hinside b ⟨e, he, hb⟩
        exact hvalues f hf b hb
    · obtain rfl := Except.ok.inj h
      exact ⟨rfl, hvalues⟩
  · exact ⟨(AnnotationSchema.className_assignAll h).trans (AnnotationSchema.className_blank hbare),
      all_assignAll (hregistry.blank s) hvalues h⟩

/-- An object is of the class of its schema, and the annotations in it come from its arguments. -/
theorem Registry.IsInert.all_objectOf (hbare : ClassName.bare s.name = s.name)
    {given : List Argument} (hgiven : ∀ g ∈ given, g.value.HoldsOnly good)
    (h : s.objectOf registry place (Argument.fold given) = .ok a) :
    a.className = s.name ∧ a.properties.All (HoldsOnly good) := by
  obtain ⟨others, hchecked, hmade⟩ := AnnotationSchema.instantiate_of_objectOf h
  obtain ⟨hleaves, -, -⟩ :=
    AnnotationSchema.foldlM_check_ok (OrderedMap.isNormal_fold given) hchecked
  exact hregistry.all_instantiate hbare (hleaves.all (all_fold hgiven)) hmade

end Objects

end Docblock
