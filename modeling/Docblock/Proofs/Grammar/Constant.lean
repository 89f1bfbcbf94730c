import Docblock.Proofs.Schema.Faithful
import Docblock.Reading.Constant

/-!
# What constants stand for

Which classes exist is asked of the memory first. A memory that knows only what is so gives the
answers of the registry, so a constant stands for one value or for none whatever was looked up
before.
-/

namespace Docblock

def Registry.firstExisting? (registry : Registry) (names : List String) : Option String :=
  names.find? fun name => registry.exists? (ClassName.bare name)

def Settings.constantClass? (s : Settings) (registry : Registry) (className : String) :
    Option String :=
  match registry.firstExisting? (s.candidates className) with
  | some found => some found
  | none =>
    match s.imported? className with
    | some imported => some imported
    | none => registry.firstExisting? (s.localCandidate? className).toList

def Settings.resolvedReference (s : Settings) (registry : Registry) (reference : String) : String :=
  if (registry.constant? reference).isSome || ClassName.isQualified reference then reference
  else
    match ClassName.constantReference? reference with
    | none => reference
    | some (className, constant) =>
      match s.constantClass? registry className with
      | some resolved => resolved ++ "::" ++ constant
      | none => reference

def Scope.constant? (scope : Scope) (written : String) : Option Value :=
  referenceValue? scope.registry (scope.settings.resolvedReference scope.registry written)

/-- From every memory that knows only what is so, the step gives `a` and such a memory again. -/
def Recall.Gives {α : Type} (registry : Registry) (x : Recall α) (a : α) : Prop :=
  ∀ m, m.Knows registry → ∃ n, n.Knows registry ∧ x.run m = (a, n)

namespace Recall

variable {registry : Registry} {α β : Type}

theorem gives_pure (a : α) : Gives registry (pure a) a := fun m hm => ⟨m, hm, rfl⟩

theorem gives_bind {x : Recall α} {f : α → Recall β} {a : α} {b : β} (hx : Gives registry x a)
    (hf : Gives registry (f a) b) : Gives registry (x >>= f) b := by
  intro m hm
  obtain ⟨n, hn, hrun⟩ := hx m hm
  obtain ⟨o, ho, hlast⟩ := hf n hn
  refine ⟨o, ho, ?_⟩
  rw [StateT.run_bind, hrun]
  exact hlast

theorem gives_classExists (name : String) :
    Gives registry (classExists registry name) (registry.exists? name) := by
  intro m hm
  cases run_classExists hm name with
  | inl h => exact ⟨m, hm, h⟩
  | inr h => exact ⟨_, hm.learn name, h⟩

theorem gives_firstExisting? (names : List String) :
    Gives registry (Docblock.firstExisting? registry names) (registry.firstExisting? names) := by
  induction names with
  | nil => exact gives_pure none
  | cons name rest ih =>
    refine gives_bind (gives_classExists (ClassName.bare name)) ?_
    unfold Registry.firstExisting?
    rw [List.find?_cons]
    cases registry.exists? (ClassName.bare name) with
    | true => exact gives_pure (some name)
    | false => exact ih

theorem gives_resolveConstantClass? (s : Settings) (className : String) :
    Gives registry (resolveConstantClass? registry s className)
      (s.constantClass? registry className) := by
  refine gives_bind (gives_firstExisting? _) ?_
  unfold Settings.constantClass?
  cases registry.firstExisting? (s.candidates className) with
  | some found => exact gives_pure _
  | none =>
    cases s.imported? className with
    | some imported => exact gives_pure _
    | none => exact gives_firstExisting? _

theorem gives_resolveReference (s : Settings) (reference : String) :
    Gives registry (resolveReference registry s reference)
      (s.resolvedReference registry reference) := by
  unfold resolveReference Settings.resolvedReference
  split
  · exact gives_pure reference
  · cases ClassName.constantReference? reference with
    | none => exact gives_pure reference
    | some parts =>
      refine gives_bind (gives_resolveConstantClass? s parts.1) ?_
      dsimp only
      cases s.constantClass? registry parts.1 with
      | some resolved => exact gives_pure _
      | none => exact gives_pure _

end Recall

end Docblock
