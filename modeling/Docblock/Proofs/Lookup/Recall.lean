import Docblock.Reading.Constant

/-!
# Steps of the memory

Names are resolved by asking which classes exist. What holds of every such question and is kept by
sequences holds of every resolution.
-/

namespace Docblock

structure RecallProperty (registry : Registry) where
  Holds : {α : Type} → Recall α → Prop
  holds_pure : ∀ {α : Type} (a : α), Holds (pure a)
  holds_bind : ∀ {α β : Type} {x : Recall α} {f : α → Recall β}, Holds x → (∀ a, Holds (f a)) →
    Holds (x >>= f)
  holds_exists : ∀ name, Holds (classExists registry name)

namespace RecallProperty

variable {registry : Registry} (p : RecallProperty registry)

theorem holds_firstExisting? (names : List String) :
    p.Holds (firstExisting? registry names) := by
  induction names with
  | nil => exact p.holds_pure none
  | cons name rest ih =>
    refine p.holds_bind (p.holds_exists _) fun found => ?_
    cases found with
    | true => exact p.holds_pure _
    | false => exact ih

theorem holds_resolveAnnotation? (s : Settings) (name : String) :
    p.Holds (resolveAnnotation? registry s name) := by
  unfold resolveAnnotation?
  split
  · exact p.holds_firstExisting? _
  · cases s.imported? name with
    | some imported => exact p.holds_pure _
    | none =>
      dsimp only
      split
      · exact p.holds_pure _
      · exact p.holds_firstExisting? _

theorem holds_resolveConstantClass? (s : Settings) (name : String) :
    p.Holds (resolveConstantClass? registry s name) := by
  refine p.holds_bind (p.holds_firstExisting? _) fun found => ?_
  cases found with
  | some found => exact p.holds_pure _
  | none =>
    cases s.imported? name with
    | some imported => exact p.holds_pure _
    | none => exact p.holds_firstExisting? _

theorem holds_resolveReference (s : Settings) (reference : String) :
    p.Holds (resolveReference registry s reference) := by
  unfold resolveReference
  split
  · exact p.holds_pure _
  · cases ClassName.constantReference? reference with
    | none => exact p.holds_pure _
    | some parts =>
      refine p.holds_bind (p.holds_resolveConstantClass? s _) fun found => ?_
      cases found <;> exact p.holds_pure _

end RecallProperty

end Docblock
