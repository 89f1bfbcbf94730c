import Docblock.Reading.Object

/-!
# Errors of an object's own

Making an object can fail in many ways, but never for the reason that a class needs itself, that a
schema cannot be made or that a record cannot be read: that is found out when the schema is looked
for. All errors that are left are about what is written in the text.
-/

namespace Docblock

namespace AnnotationError

/-- The error is neither about a class that needs itself nor about making a schema. -/
def IsOwn : AnnotationError → Prop
  | circular _ | schema _ => False
  | _ => True

def IsOfText : AnnotationError → Prop
  | circular _ | schema _ | record _ => False
  | _ => True

theorem IsOfText.isOwn {e : AnnotationError} (h : e.IsOfText) : e.IsOwn := by
  cases e <;> trivial

end AnnotationError

def FailsOnly {α : Type} (allowed : AnnotationError → Prop) (x : Except AnnotationError α) :
    Prop :=
  ∀ e, x = .error e → allowed e

section FailsOnly

variable {α β : Type} {allowed : AnnotationError → Prop}

theorem failsOnly_ok (a : α) : FailsOnly allowed (.ok a) := nofun

theorem failsOnly_error {e : AnnotationError} (h : allowed e) :
    FailsOnly allowed (.error e : Except AnnotationError α) := by
  rintro _ ⟨⟩
  exact h

theorem failsOnly_bind {x : Except AnnotationError α} {f : α → Except AnnotationError β}
    (hx : FailsOnly allowed x) (hf : ∀ a, FailsOnly allowed (f a)) :
    FailsOnly allowed (x >>= f) := by
  cases x with
  | ok a => exact hf a
  | error e => exact failsOnly_error (hx e rfl)

theorem failsOnly_forM {f : α → Except AnnotationError Unit} (h : ∀ a, FailsOnly allowed (f a))
    (all : List α) : FailsOnly allowed (all.forM f) := by
  induction all with
  | nil => exact failsOnly_ok ()
  | cons a rest ih => exact failsOnly_bind (h a) fun _ => ih

theorem failsOnly_foldlM {f : β → α → Except AnnotationError β} {all : List α}
    (h : ∀ b, ∀ a ∈ all, FailsOnly allowed (f b a)) (b : β) :
    FailsOnly allowed (all.foldlM f b) := by
  induction all generalizing b with
  | nil => exact failsOnly_ok b
  | cons a rest ih =>
    rw [List.foldlM_cons]
    exact failsOnly_bind (h b a List.mem_cons_self) fun b =>
      ih (fun b c hc => h b c (List.mem_cons_of_mem a hc)) b

end FailsOnly

theorem PropertySchema.failsOnly_checkEnumeration (place : Place) (values : OrderedMap Value)
    (p : PropertySchema) :
    FailsOnly AnnotationError.IsOfText (p.checkEnumeration place values) := by
  unfold PropertySchema.checkEnumeration
  split
  · split
    · exact failsOnly_ok ()
    · exact failsOnly_error trivial
  · exact failsOnly_ok ()

theorem PropertySchema.failsOnly_check (classes : Hierarchy) (place : Place)
    (values : OrderedMap Value) (p : PropertySchema) :
    FailsOnly AnnotationError.IsOfText (p.check classes place values) := by
  unfold PropertySchema.check
  dsimp only
  split
  · split
    · exact failsOnly_error trivial
    · exact failsOnly_ok _
  · exact failsOnly_ok _
  · exact failsOnly_ok _
  · split
    · exact failsOnly_error trivial
    · exact failsOnly_ok _
  · split
    · exact failsOnly_ok _
    · exact failsOnly_error trivial

namespace AnnotationSchema

theorem failsOnly_assign (s : AnnotationSchema) (place : Place) (all : OrderedMap Value)
    (object : Annotation) (key : Key) (v : Value) :
    FailsOnly AnnotationError.IsOfText (s.assign place all object key v) := by
  unfold assign
  split
  · exact failsOnly_ok _
  · split
    · exact failsOnly_error trivial
    · split
      · exact failsOnly_ok _
      · exact failsOnly_error trivial

theorem failsOnly_assignAll (s : AnnotationSchema) (place : Place) (all : OrderedMap Value)
    (object : Annotation) (entries : List (Key × Value)) :
    FailsOnly AnnotationError.IsOfText (s.assignAll place all object entries) := by
  induction entries generalizing object with
  | nil => exact failsOnly_ok object
  | cons entry rest ih =>
    unfold assignAll
    cases hassign : s.assign place all object entry.1 entry.2 with
    | ok next => exact ih next
    | error e =>
      exact failsOnly_error (s.failsOnly_assign place all object entry.1 entry.2 e hassign)

theorem failsOnly_instantiate (s : AnnotationSchema) (registry : Registry) (place : Place)
    (values : OrderedMap Value) :
    FailsOnly AnnotationError.IsOfText (s.instantiate registry place values) := by
  unfold instantiate construct
  split
  · split
    · split
      · exact failsOnly_ok _
      · exact failsOnly_error trivial
    · exact failsOnly_ok _
  · exact s.failsOnly_assignAll place values _ _

theorem failsOnly_objectOf (s : AnnotationSchema) (registry : Registry) (place : Place)
    (values : OrderedMap Value) :
    FailsOnly AnnotationError.IsOfText (s.objectOf registry place values) :=
  failsOnly_bind (failsOnly_forM (fun p => p.failsOnly_checkEnumeration place values) _) fun _ =>
    failsOnly_bind (failsOnly_foldlM (fun values p _ => p.failsOnly_check _ place values) _)
      fun _ => s.failsOnly_instantiate registry place _

end AnnotationSchema

end Docblock
