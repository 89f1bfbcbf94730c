import Docblock.Reading.Object
import Mathlib.Data.List.Forall2

/-!
# Further ancestors

Classes may be declared anew with further ancestors. Every class then belongs at least to the
classes it belonged to, and every type accepts at least the values it accepted. The hierarchy
decides nothing else: arguments that pass their checks pass them with the same values, and the same
object is made of them.
-/

namespace Docblock

def Hierarchy.Within (classes wider : Hierarchy) : Prop :=
  ∀ className ancestor, classes className ancestor = true → wider className ancestor = true

structure ClassDeclaration.Within (c wider : ClassDeclaration) : Prop where
  eq : wider = { c with ancestors := wider.ancestors }
  ancestors : c.ancestors ⊆ wider.ancestors

structure Registry.Within (registry wider : Registry) : Prop where
  classes : List.Forall₂ ClassDeclaration.Within registry.classes wider.classes
  constants : wider.constants = registry.constants

theorem ClassDeclaration.Within.refl (c : ClassDeclaration) : c.Within c :=
  ⟨rfl, List.Subset.refl _⟩

namespace Registry

variable {registry wider : Registry} {name : String} {c : ClassDeclaration}

namespace Within

theorem find_cases {classes others : List ClassDeclaration}
    (h : List.Forall₂ ClassDeclaration.Within classes others) (name : String) :
    (classes.find? (fun c => c.name == name) = none ∧
      others.find? (fun c => c.name == name) = none) ∨
    ∃ c d, classes.find? (fun c => c.name == name) = some c ∧
      others.find? (fun c => c.name == name) = some d ∧ c.Within d := by
  induction h with
  | nil => exact .inl ⟨rfl, rfl⟩
  | @cons c d _ _ hhead _ ih =>
    have hname : d.name = c.name := by rw [hhead.eq]
    by_cases hfound : c.name == name
    · exact .inr ⟨c, d, by simp [hfound], by simp [hname, hfound], hhead⟩
    · simpa [List.find?_cons, hname, hfound] using ih

variable (h : registry.Within wider)

include h

theorem lookup_cases (name : String) :
    (registry.lookup? name = none ∧ wider.lookup? name = none) ∨
    ∃ c d, registry.lookup? name = some c ∧ wider.lookup? name = some d ∧ c.Within d :=
  find_cases h.classes name

theorem describe_cases (name : String) :
    (registry.describe? name = none ∧ wider.describe? name = none) ∨
    ∃ c d, registry.describe? name = some c ∧ wider.describe? name = some d ∧ c.Within d :=
  h.lookup_cases _

omit h in
theorem refl (registry : Registry) : registry.Within registry :=
  ⟨List.forall₂_same.mpr fun c _ => .refl c, rfl⟩

theorem register {c d : ClassDeclaration} (hc : c.Within d) :
    (registry.register c).Within (wider.register d) := by
  have hname : d.name = c.name := by rw [hc.eq]
  have hput {classes others : List ClassDeclaration}
      (hclasses : List.Forall₂ ClassDeclaration.Within classes others) :
      List.Forall₂ ClassDeclaration.Within (put c classes) (put d others) := by
    induction hclasses with
    | nil => exact .cons hc .nil
    | cons hhead hrest ih =>
      have hsame := congrArg ClassDeclaration.name hhead.eq
      unfold put
      rw [hname, hsame]
      split
      · exact .cons hc hrest
      · exact .cons hhead ih
  exact ⟨hput h.classes, h.constants⟩

theorem bind_describe? {α : Type} (name : String) (f : ClassDeclaration → Option α)
    (hf : ∀ c ancestors, f { c with ancestors } = f c) :
    (wider.describe? name).bind f = (registry.describe? name).bind f := by
  rcases h.describe_cases name with ⟨hnone, hother⟩ | ⟨c, d, hc, hd, hwithin⟩
  · rw [hnone, hother]
  · rw [hc, hd, Option.bind_some, Option.bind_some, hwithin.eq, hf]

theorem exists_eq : wider.exists? = registry.exists? := by
  funext name
  unfold Registry.exists?
  rcases h.describe_cases name with ⟨hnone, hother⟩ | ⟨c, d, hc, hd, -⟩
  · rw [hnone, hother]
  · rw [hc, hd]
    rfl

theorem constant_eq : wider.constant? = registry.constant? := by
  funext reference
  unfold Registry.constant?
  cases ClassName.memberReference? reference with
  | none => rw [h.constants]
  | some member => exact h.bind_describe? _ _ fun _ _ => rfl

theorem ancestorsOf_subset (name : String) :
    registry.ancestorsOf name ⊆ wider.ancestorsOf name := by
  unfold ancestorsOf
  rcases h.lookup_cases name with ⟨hnone, hother⟩ | ⟨c, d, hc, hd, hwithin⟩
  · rw [hnone, hother]
    exact List.Subset.refl []
  · rw [hc, hd]
    exact hwithin.ancestors

theorem widen_subset {names others : List String} (hnames : names ⊆ others) :
    registry.widen names ⊆ wider.widen others := by
  intro ancestor hmem
  unfold widen at hmem ⊢
  rw [List.mem_eraseDups, List.mem_append, List.mem_flatMap] at hmem ⊢
  refine hmem.imp (@hnames ancestor) ?_
  rintro ⟨name, hname, hancestor⟩
  exact ⟨name, hnames hname, h.ancestorsOf_subset name hancestor⟩

theorem reached_subset (steps : Nat) {names others : List String} (hnames : names ⊆ others) :
    registry.reached steps names ⊆ wider.reached steps others := by
  induction steps generalizing names others with
  | zero => exact hnames
  | succ steps ih => exact ih (h.widen_subset hnames)

theorem isSubclass : registry.isSubclass.Within wider.isSubclass := by
  intro className ancestor hsubclass
  unfold Registry.isSubclass at hsubclass ⊢
  rw [← h.classes.length_eq]
  rw [List.contains_iff_mem] at hsubclass ⊢
  exact h.reached_subset _ (List.Subset.refl _) hsubclass

end Within

end Registry

section Accepting

variable {classes wider : Hierarchy}

mutual

/-- A value stays in its types when classes get further ancestors. -/
theorem ValueType.accepts_of_within (h : classes.Within wider) (t : ValueType) (v : Value)
    (hv : t.accepts classes v = true) : t.accepts wider v = true := by
  cases t with
  | mixed | null | boolean | integer | string => exact hv
  | float => cases v <;> exact hv
  | object className =>
    cases className with
    | none => cases v <;> exact hv
    | some ancestor =>
      cases v with
      | object className properties => exact h className ancestor hv
      | _ => exact hv
  | list element =>
    cases v with
    | array items =>
      unfold ValueType.accepts at hv ⊢
      rw [List.all_eq_true] at hv ⊢
      exact fun item hitem => element.accepts_of_within h item (hv item hitem)
    | _ => exact hv
  | map key element =>
    cases v with
    | array items =>
      unfold ValueType.accepts at hv ⊢
      rw [List.all_eq_true] at hv ⊢
      intro entry hentry
      have hboth := Bool.and_eq_true_iff.mp (hv entry hentry)
      exact Bool.and_eq_true_iff.mpr ⟨key.accepts_of_within h _ hboth.1,
        element.accepts_of_within h _ hboth.2⟩
    | _ => exact hv
  | union members => exact ValueType.someAccepts_of_within h members v hv
  | intersection members => exact ValueType.allAccept_of_within h members v hv
  | constant only => exact hv

theorem ValueType.someAccepts_of_within (h : classes.Within wider) (members : List ValueType)
    (v : Value) (hv : ValueType.someAccepts classes members v = true) :
    ValueType.someAccepts wider members v = true := by
  cases members with
  | nil => exact hv
  | cons member rest =>
    unfold ValueType.someAccepts at hv ⊢
    rw [Bool.or_eq_true] at hv ⊢
    exact hv.imp (member.accepts_of_within h v) (ValueType.someAccepts_of_within h rest v)

theorem ValueType.allAccept_of_within (h : classes.Within wider) (members : List ValueType)
    (v : Value) (hv : ValueType.allAccept classes members v = true) :
    ValueType.allAccept wider members v = true := by
  cases members with
  | nil => exact hv
  | cons member rest =>
    unfold ValueType.allAccept at hv ⊢
    rw [Bool.and_eq_true] at hv ⊢
    exact hv.imp (member.accepts_of_within h v) (ValueType.allAccept_of_within h rest v)

end

variable (h : classes.Within wider)

include h

theorem misfit_of_within {element : ValueType} {v : Option Value}
    (hnone : PropertySchema.misfit? classes element v = none) :
    PropertySchema.misfit? wider element v = none := by
  unfold PropertySchema.misfit? at hnone ⊢
  cases hitems : v.bind Value.array? with
  | none => rfl
  | some items =>
    rw [hitems, Option.bind_some, List.find?_eq_none] at hnone
    rw [Option.bind_some, List.find?_eq_none]
    intro item hitem
    have haccepts : element.accepts classes item = true := by simpa using hnone item hitem
    simpa using element.accepts_of_within h item haccepts

theorem PropertySchema.check_of_within {p : PropertySchema} {place : Place}
    {values checked : OrderedMap Value} (hok : p.check classes place values = .ok checked) :
    p.check wider place values = .ok checked := by
  unfold PropertySchema.check at hok ⊢
  dsimp only at hok ⊢
  split at hok
  · exact hok
  · exact hok
  · exact hok
  next v element declared hset htype =>
    split at hok
    · cases hok
    next hfits =>
      rw [misfit_of_within h hfits]
      exact hok
  next v typeName declared hset htype =>
    split at hok
    next hfits =>
      rw [if_pos ((ValueType.ofName typeName).accepts_of_within h v hfits)]
      exact hok
    · cases hok

theorem AnnotationSchema.checkProperties_of_within {s : AnnotationSchema} {place : Place}
    {values checked : OrderedMap Value}
    (hok : s.checkProperties classes place values = .ok checked) :
    s.checkProperties wider place values = .ok checked := by
  unfold AnnotationSchema.checkProperties at hok ⊢
  generalize s.properties = properties at hok ⊢
  induction properties generalizing values with
  | nil => exact hok
  | cons p rest ih =>
    rw [List.foldlM_cons] at hok ⊢
    cases hfirst : p.check classes place values with
    | error e =>
      rw [hfirst] at hok
      cases hok
    | ok next =>
      rw [hfirst] at hok
      rw [p.check_of_within h hfirst]
      exact ih hok

end Accepting

namespace Registry.Within

variable {registry wider : Registry} (h : registry.Within wider)

include h

theorem instantiate_eq (s : AnnotationSchema) (place : Place) (values : OrderedMap Value) :
    s.instantiate wider place values = s.instantiate registry place values := by
  have hconstructor : ((wider.describe? s.name).bind fun c => c.constructor?) =
      (registry.describe? s.name).bind fun c => c.constructor? :=
    h.bind_describe? s.name _ fun _ _ => rfl
  have hblank : s.blank wider = s.blank registry := by
    unfold AnnotationSchema.blank
    rcases h.describe_cases s.name with ⟨hnone, hother⟩ | ⟨c, d, hc, hd, hwithin⟩
    · rw [hnone, hother]
    · rw [hc, hd, hwithin.eq]
      rfl
  unfold AnnotationSchema.instantiate AnnotationSchema.construct
  rw [hconstructor, hblank]

/-- Further ancestors leave every object as it was made without them. -/
theorem objectOf {s : AnnotationSchema} {place : Place} {values : OrderedMap Value}
    {a : Annotation} (hok : s.objectOf registry place values = .ok a) :
    s.objectOf wider place values = .ok a := by
  unfold AnnotationSchema.objectOf at hok ⊢
  cases henumerations : s.checkEnumerations place values with
  | error e =>
    rw [henumerations] at hok
    cases hok
  | ok checked =>
    cases hproperties : s.checkProperties registry.isSubclass place values with
    | error e =>
      rw [henumerations, hproperties] at hok
      cases hok
    | ok values' =>
      rw [henumerations, hproperties] at hok
      rw [s.checkProperties_of_within h.isSubclass hproperties]
      exact (h.instantiate_eq s place values').trans hok

end Registry.Within

end Docblock
