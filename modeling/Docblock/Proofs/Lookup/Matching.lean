import Docblock.Proofs.Lookup.Corresponding

/-!
# Matching lookups

Two lookups match if from every memory of some kind they give the same and leave the same memory
behind, which is of that kind again. Errors need to be the same in part only: what is forgotten of
them is told by a function.
-/

namespace Docblock

/-- The same value, or errors that are the same when some of what they say is forgotten. -/
def SameAnswer {α β : Type} (forget : AnnotationError → AnnotationError) (R : α → β → Prop) :
    Except AnnotationError α → Except AnnotationError β → Prop
  | .ok a, .ok b => R a b
  | .error e, .error f => forget e = forget f
  | _, _ => False

theorem sameAnswer_refl {α : Type} (forget : AnnotationError → AnnotationError)
    (answer : Except AnnotationError α) : SameAnswer forget Eq answer answer := by
  cases answer <;> rfl

theorem SameAnswer.mapError_eq {α : Type} {forget : AnnotationError → AnnotationError}
    {first second : Except AnnotationError α} (h : SameAnswer forget Eq first second) :
    first.mapError forget = second.mapError forget := by
  cases first with
  | ok a =>
    cases second with
    | ok b => exact congrArg Except.ok h
    | error f => exact h.elim
  | error e =>
    cases second with
    | ok b => exact h.elim
    | error f => exact congrArg Except.error h

namespace Lookup

variable {forget : AnnotationError → AnnotationError} {P : Memory → Prop} {α β γ δ : Type}
  {R : α → β → Prop} {S : γ → δ → Prop}

/-- Two lookups give the same from every memory with a property, and leave the same memory behind,
which has the property, too. -/
def Matches (forget : AnnotationError → AnnotationError) (P : Memory → Prop) (R : α → β → Prop)
    (x : Lookup α) (y : Lookup β) : Prop :=
  ∀ m, P m → SameAnswer forget R (x.result m).1 (y.result m).1 ∧
    (x.result m).2 = (y.result m).2 ∧ P (x.result m).2

theorem matches_pure {a : α} {b : β} (hab : R a b) : Matches forget P R (pure a) (pure b) :=
  fun _ hm => ⟨hab, rfl, hm⟩

theorem matches_throw {e f : AnnotationError} (h : forget e = forget f) :
    Matches forget P R (throw e : Lookup α) (throw f : Lookup β) :=
  fun _ hm => ⟨h, rfl, hm⟩

theorem matches_refl {x : Lookup α} (hx : ∀ m, P m → P (x.result m).2) :
    Matches forget P Eq x x :=
  fun m hm => ⟨sameAnswer_refl forget _, rfl, hx m hm⟩

theorem matches_bind {x : Lookup α} {y : Lookup β} {f : α → Lookup γ} {g : β → Lookup δ}
    (hx : Matches forget P R x y) (hf : ∀ a b, R a b → Matches forget P S (f a) (g b)) :
    Matches forget P S (x >>= f) (y >>= g) := by
  intro m hm
  obtain ⟨hanswer, hmemory, hn⟩ := hx m hm
  rw [result_bind, result_bind]
  generalize x.result m = first at hanswer hmemory hn
  generalize y.result m = second at hanswer hmemory
  obtain ⟨answer, n⟩ := first
  obtain ⟨other, o⟩ := second
  obtain rfl : n = o := hmemory
  cases answer with
  | ok a =>
    cases other with
    | ok b => exact hf a b hanswer n hn
    | error f => exact hanswer.elim
  | error e =>
    cases other with
    | ok b => exact hanswer.elim
    | error f => exact ⟨hanswer, rfl, hn⟩

end Lookup

end Docblock
