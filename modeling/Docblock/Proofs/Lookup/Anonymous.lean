import Docblock.Proofs.Lookup.Matching

/-!
# Errors without names

Whether an object can be made of an annotation, which object it is and what is wrong with it
otherwise do not depend on how the name of the annotation is written. The written name only appears
in errors, as do the tokens that were met and the references that name no constant.
-/

namespace Docblock

namespace AnnotationError

/-- The error without the names and tokens in it that are written as they are in the text. -/
def anonymous : AnnotationError → AnnotationError
  | unexpected expected found context =>
    unexpected expected (found.map fun _ => ⟨"", 0⟩) context
  | notImported _ context => notImported "" context
  | notMarked className _ context => notMarked className "" context
  | targetNotAllowed _ context allowed => targetNotAllowed "" context allowed
  | notEnumerated property _ context allowed given =>
    notEnumerated property "" context allowed given
  | requiredMissing property _ context expected => requiredMissing property "" context expected
  | typeMismatch property _ context expected actual =>
    typeMismatch property "" context expected actual
  | unknownProperty _ context property available => unknownProperty "" context property available
  | noValuesAccepted _ context values => noValuesAccepted "" context values
  | construction _ context reason => construction "" context reason
  | undefinedConstant _ context => undefinedConstant "" context
  | e => e

theorem anonymous_unplaced (e : AnnotationError) : e.unplaced.anonymous = e.anonymous := by
  cases e with
  | unexpected expected found context => cases found <;> rfl
  | _ => rfl

theorem anonymous_eq_of_unplaced {e f : AnnotationError} (h : e.unplaced = f.unplaced) :
    e.anonymous = f.anonymous := by
  rw [← anonymous_unplaced, h, anonymous_unplaced]

end AnnotationError

section SameAnswer

variable {forget : AnnotationError → AnnotationError} {α β γ δ : Type}

theorem sameAnswer_bind {R : α → β → Prop} {S : γ → δ → Prop} {x : Except AnnotationError α}
    {y : Except AnnotationError β} {f : α → Except AnnotationError γ}
    {g : β → Except AnnotationError δ} (hx : SameAnswer forget R x y)
    (hf : ∀ a b, R a b → SameAnswer forget S (f a) (g b)) :
    SameAnswer forget S (x >>= f) (y >>= g) := by
  cases x with
  | ok a =>
    cases y with
    | ok b => exact hf a b hx
    | error e => exact hx.elim
  | error e =>
    cases y with
    | ok b => exact hx.elim
    | error f => exact hx

theorem sameAnswer_forM {f g : α → Except AnnotationError Unit}
    (h : ∀ a, SameAnswer forget Eq (f a) (g a)) (all : List α) :
    SameAnswer forget Eq (all.forM f) (all.forM g) := by
  induction all with
  | nil => rfl
  | cons a rest ih => exact sameAnswer_bind (h a) fun _ _ _ => ih

theorem sameAnswer_foldlM {f g : β → α → Except AnnotationError β}
    (h : ∀ b a, SameAnswer forget Eq (f b a) (g b a)) (all : List α) (b : β) :
    SameAnswer forget Eq (all.foldlM f b) (all.foldlM g b) := by
  induction all generalizing b with
  | nil => rfl
  | cons a rest ih =>
    rw [List.foldlM_cons, List.foldlM_cons]
    refine sameAnswer_bind (h b a) ?_
    rintro next _ rfl
    exact ih next

end SameAnswer

section Place

open AnnotationError

variable (written other context : String) (values : OrderedMap Value)

theorem PropertySchema.sameAnswer_checkEnumeration (p : PropertySchema) :
    SameAnswer anonymous Eq (p.checkEnumeration ⟨written, context⟩ values)
      (p.checkEnumeration ⟨other, context⟩ values) := by
  unfold PropertySchema.checkEnumeration
  cases p.enumeration? with
  | none => rfl
  | some enumeration =>
    cases values.set? p.name with
    | none => rfl
    | some v =>
      dsimp only
      split <;> rfl

theorem PropertySchema.sameAnswer_check (classes : Hierarchy) (p : PropertySchema) :
    SameAnswer anonymous Eq (p.check classes ⟨written, context⟩ values)
      (p.check classes ⟨other, context⟩ values) := by
  unfold PropertySchema.check
  dsimp only
  cases values.set? (p.sourceName values) with
  | none =>
    dsimp only
    split <;> rfl
  | some v =>
    rcases p.type? with _ | ⟨_ | element, _⟩ | ⟨typeName, declared⟩
    · rfl
    · rfl
    · dsimp only
      split <;> rfl
    · dsimp only
      split <;> rfl

namespace AnnotationSchema

variable (s : AnnotationSchema)

theorem sameAnswer_assign (all : OrderedMap Value) (object : Annotation) (key : Key) (v : Value) :
    SameAnswer anonymous Eq (s.assign ⟨written, context⟩ all object key v)
      (s.assign ⟨other, context⟩ all object key v) := by
  unfold assign
  split
  · rfl
  · split
    · rfl
    · split <;> rfl

theorem sameAnswer_assignAll (all : OrderedMap Value) (object : Annotation)
    (entries : List (Key × Value)) :
    SameAnswer anonymous Eq (s.assignAll ⟨written, context⟩ all object entries)
      (s.assignAll ⟨other, context⟩ all object entries) := by
  induction entries generalizing object with
  | nil => rfl
  | cons entry rest ih =>
    have hbind (place : Place) : s.assignAll place all object (entry :: rest) = (do
        s.assignAll place all (← s.assign place all object entry.1 entry.2) rest) := by
      rw [assignAll]
      cases s.assign place all object entry.1 entry.2 <;> rfl
    rw [hbind, hbind]
    refine sameAnswer_bind (s.sameAnswer_assign written other context all object _ _) ?_
    rintro next _ rfl
    exact ih next

theorem sameAnswer_instantiate (registry : Registry) :
    SameAnswer anonymous Eq (s.instantiate registry ⟨written, context⟩ values)
      (s.instantiate registry ⟨other, context⟩ values) := by
  unfold instantiate construct
  split
  · cases (registry.describe? s.name).bind fun c => c.constructor? with
    | none => rfl
    | some constructor =>
      dsimp only
      cases constructor s.name values <;> rfl
  · exact s.sameAnswer_assignAll written other context values _ _

/-- Making an object does not depend on the name that is written for its class. -/
theorem sameAnswer_objectOf (registry : Registry) :
    SameAnswer anonymous Eq (s.objectOf registry ⟨written, context⟩ values)
      (s.objectOf registry ⟨other, context⟩ values) := by
  refine sameAnswer_bind (sameAnswer_forM (fun p =>
    p.sameAnswer_checkEnumeration written other context values) _) fun _ _ _ => ?_
  refine sameAnswer_bind (sameAnswer_foldlM (fun values p =>
    p.sameAnswer_check written other context values _) _ _) ?_
  rintro checked _ rfl
  exact s.sameAnswer_instantiate written other context checked registry

end AnnotationSchema

end Place

namespace Lookup

theorem matches_liftM {forget : AnnotationError → AnnotationError} {P : Memory → Prop} {α β : Type}
    {R : α → β → Prop} {x : Except AnnotationError α} {y : Except AnnotationError β}
    (h : SameAnswer forget R x y) : Matches forget P R (liftM x : Lookup α) (liftM y) := by
  intro m hm
  cases x with
  | ok a =>
    cases y with
    | ok b => exact ⟨h, rfl, hm⟩
    | error f => exact h.elim
  | error e =>
    cases y with
    | ok b => exact h.elim
    | error f => exact ⟨h, rfl, hm⟩

end Lookup

end Docblock
