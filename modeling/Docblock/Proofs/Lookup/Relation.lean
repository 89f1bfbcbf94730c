import Docblock.Parser
import Docblock.Proofs.Lookup.Recall
import Docblock.Proofs.Lookup.Run

/-!
# Relations between lookups

Two scopes may differ in the source of their schemas, and in registries that tell the same classes
and constants. If a relation between lookups holds of the answers of both sources and of the objects
made in both registries, and is kept by every basic step, then it holds of whatever is read in the
two scopes: names, constants, values, annotations, and whole doc comments. The second half says the
same of the schemas that are read with two readers of doc comments.
-/

namespace Docblock

/-- A relation between lookups that every step of a reader keeps. In a sequence the second steps
need to be related for the values only that the first step can give. -/
structure LookupRelation (registry : Registry) where
  Related : {α : Type} → Lookup α → Lookup α → Prop
  related_pure : ∀ {α : Type} (a : α), Related (pure a) (pure a)
  related_throw : ∀ {α : Type} (e : AnnotationError), Related (throw e : Lookup α) (throw e)
  related_bind : ∀ {α β : Type} {x y : Lookup α} {f g : α → Lookup β}, Related x y →
    (∀ a, x.Returns a → Related (f a) (g a)) → Related (x >>= f) (y >>= g)
  related_exists : ∀ name, Related (liftM (classExists registry name) : Lookup Bool)
    (liftM (classExists registry name))

def Scope.withSource (scope : Scope) (source : String → Lookup (Option AnnotationSchema)) : Scope :=
  { scope with schemaOf := source }

def Scope.under (scope : Scope) (twin : Registry)
    (source : String → Lookup (Option AnnotationSchema)) : Scope :=
  { scope with registry := twin, schemaOf := source }

namespace LookupRelation

variable {registry : Registry} (r : LookupRelation registry) {α β : Type}

theorem related_except (a : Except AnnotationError α) :
    r.Related (liftM a : Lookup α) (liftM a) := by
  cases a with
  | ok a => exact r.related_pure a
  | error e => exact r.related_throw e

def Reads (x y : Reading α) : Prop := ∀ w, r.Related (x.run w) (y.run w)

theorem reads_pure (a : α) : r.Reads (pure a) (pure a) := fun w => r.related_pure (a, w)

theorem reads_throw (e : AnnotationError) : r.Reads (throw e : Reading α) (throw e) :=
  fun _ => r.related_throw e

theorem reads_bind {x y : Reading α} {f g : α → Reading β} (hx : r.Reads x y)
    (hf : ∀ a, x.Returns a → r.Reads (f a) (g a)) : r.Reads (x >>= f) (y >>= g) := by
  intro w
  rw [StateT.run_bind, StateT.run_bind]
  refine r.related_bind (hx w) fun p hp => ?_
  obtain ⟨m, n, hmn⟩ := hp
  exact hf p.1 ⟨w, m, p.2, n, hmn⟩ p.2

theorem reads_seq {x y : Reading α} {f g : α → Reading β} (hx : r.Reads x y)
    (hf : ∀ a, r.Reads (f a) (g a)) : r.Reads (x >>= f) (y >>= g) :=
  r.reads_bind hx fun a _ => hf a

theorem reads_get : r.Reads get get := fun w => r.related_pure (w, w)

theorem reads_modify (f : Window → Window) : r.Reads (modify f) (modify f) :=
  fun w => r.related_pure ((), f w)

theorem reads_lookup {x y : Lookup α} (h : r.Related x y) :
    r.Reads (liftM x : Reading α) (liftM y) := fun w =>
  r.related_bind h fun a _ => r.related_pure (a, w)

def recallProperty : RecallProperty registry where
  Holds x := r.Related (liftM x) (liftM x)
  holds_pure := r.related_pure
  holds_bind hx hf := r.related_bind hx fun a _ => hf a
  holds_exists := r.related_exists

theorem related_resolveAnnotation? (s : Settings) (name : String) :
    r.Related (liftM (resolveAnnotation? registry s name) : Lookup (Option String))
      (liftM (resolveAnnotation? registry s name)) :=
  r.recallProperty.holds_resolveAnnotation? s name

theorem related_resolveReference (s : Settings) (reference : String) :
    r.Related (liftM (resolveReference registry s reference) : Lookup String)
      (liftM (resolveReference registry s reference)) :=
  r.recallProperty.holds_resolveReference s reference

/-- A registry that tells the same classes and constants, and whose objects are related to those of
the other. -/
structure Twin (twin : Registry) : Prop where
  exists_eq : twin.exists? = registry.exists?
  constant_eq : twin.constant? = registry.constant?
  objects : ∀ (s : AnnotationSchema) (place : Place) (values : OrderedMap Value),
    r.Related (liftM (s.objectOf registry place values) : Lookup Annotation)
      (liftM (s.objectOf twin place values))

/-- A registry is its own twin. -/
theorem twin_self : r.Twin registry := ⟨rfl, rfl, fun _ _ _ => r.related_except _⟩

namespace Twin

variable {r} {twin : Registry} (h : r.Twin twin)

include h

theorem classExists_eq : classExists twin = classExists registry := by
  unfold classExists
  rw [h.exists_eq]

theorem firstExisting_eq (names : List String) :
    firstExisting? twin names = firstExisting? registry names := by
  induction names with
  | nil => rfl
  | cons name rest ih =>
    unfold firstExisting?
    rw [h.classExists_eq, ih]

theorem resolveAnnotation_eq : resolveAnnotation? twin = resolveAnnotation? registry := by
  unfold resolveAnnotation?
  simp only [h.firstExisting_eq]

theorem resolveReference_eq : resolveReference twin = resolveReference registry := by
  unfold resolveReference resolveConstantClass?
  simp only [h.firstExisting_eq, h.constant_eq]

theorem referenceValue_eq : referenceValue? twin = referenceValue? registry := by
  unfold referenceValue?
  rw [h.constant_eq]

end Twin

section Readers

variable (scope : Scope) (twin : Registry) (source : String → Lookup (Option AnnotationSchema))
  (r : LookupRelation scope.registry)

theorem reads_unexpected (expected : Expectation) :
    r.Reads (Reading.unexpected scope expected : Reading α)
      (Reading.unexpected (scope.under twin source) expected) :=
  r.reads_seq r.reads_get fun _ => r.reads_throw _

theorem reads_expectAny (kinds : List TokenKind) :
    r.Reads (Reading.expectAny scope kinds)
      (Reading.expectAny (scope.under twin source) kinds) := by
  unfold Reading.expectAny
  refine r.reads_seq r.reads_get fun w => ?_
  cases w.lookahead with
  | none => exact reads_unexpected scope twin source r _
  | some t =>
    dsimp only
    split
    · exact r.reads_seq (r.reads_modify _) fun _ => r.reads_pure t
    · exact reads_unexpected scope twin source r _

theorem reads_isNext (kind : TokenKind) : r.Reads (Reading.isNext kind) (Reading.isNext kind) :=
  r.reads_seq r.reads_get fun _ => r.reads_pure _

theorem reads_skip : r.Reads Reading.skip Reading.skip := r.reads_modify _

theorem reads_moreItems (closer : TokenKind) {item other : Reading α} (h : r.Reads item other)
    (steps : Nat) :
    r.Reads (Reading.moreItems closer item steps) (Reading.moreItems closer other steps) := by
  induction steps with
  | zero => exact r.reads_pure []
  | succ steps ih =>
    refine r.reads_seq (reads_isNext scope r _) fun comma => ?_
    split
    · exact r.reads_pure []
    · refine r.reads_seq (reads_skip scope r) fun _ => ?_
      refine r.reads_seq (reads_isNext scope r _) fun closed => ?_
      split
      · exact r.reads_pure []
      · exact r.reads_seq h fun a => r.reads_seq ih fun rest => r.reads_pure _

theorem reads_items (closer : TokenKind) {item other : Reading α} (h : r.Reads item other) :
    r.Reads (Reading.items closer item) (Reading.items closer other) :=
  r.reads_seq h fun _ => r.reads_seq r.reads_get fun _ =>
    r.reads_seq (reads_moreItems scope r closer h _) fun _ => r.reads_pure _

theorem reads_nameParts (steps : Nat) :
    r.Reads (Reading.nameParts scope steps)
      (Reading.nameParts (scope.under twin source) steps) := by
  induction steps with
  | zero => exact r.reads_pure ""
  | succ steps ih =>
    refine r.reads_seq r.reads_get fun w => ?_
    split
    · exact r.reads_pure ""
    · refine r.reads_seq (reads_expectAny scope twin source r _) fun _ => ?_
      refine r.reads_seq (reads_expectAny scope twin source r _) fun part => ?_
      exact r.reads_seq ih fun rest => r.reads_pure _

theorem reads_identifier :
    r.Reads (Reading.identifier scope) (Reading.identifier (scope.under twin source)) := by
  have hrest : r.Reads
      (do let first ← Reading.expectAny scope Reading.classParts
          let rest ← Reading.nameParts scope (← get).ahead.length
          return first.text ++ rest)
      (do let first ← Reading.expectAny (scope.under twin source) Reading.classParts
          let rest ← Reading.nameParts (scope.under twin source) (← get).ahead.length
          return first.text ++ rest) :=
    r.reads_seq (reads_expectAny scope twin source r _) fun _ => r.reads_seq r.reads_get fun _ =>
      r.reads_seq (reads_nameParts scope twin source r _) fun _ => r.reads_pure _
  refine r.reads_seq r.reads_get fun w => ?_
  dsimp only
  split
  · exact r.reads_seq (reads_unexpected scope twin source r _) fun _ => hrest
  · exact hrest

theorem reads_recall {x : Recall α} (h : r.Related (liftM x : Lookup α) (liftM x)) :
    r.Reads (liftM x : Reading α) (liftM x) := r.reads_lookup h

variable {r twin} (ht : r.Twin twin)

include ht

theorem reads_constant :
    r.Reads (Reading.constant scope) (Reading.constant (scope.under twin source)) := by
  refine r.reads_seq (reads_identifier scope twin source r) fun written => ?_
  have hreference : r.Reads
      (liftM (resolveReference scope.registry scope.settings written) : Reading String)
      (liftM (resolveReference twin scope.settings written)) := by
    rw [ht.resolveReference_eq]
    exact reads_recall scope r (r.related_resolveReference _ _)
  refine r.reads_seq hreference fun reference => ?_
  have hvalue : referenceValue? (scope.under twin source).registry reference =
      referenceValue? scope.registry reference := congrFun ht.referenceValue_eq reference
  simp only [hvalue]
  cases referenceValue? scope.registry reference with
  | some v => exact r.reads_pure v
  | none => exact r.reads_throw _

end Readers

end LookupRelation

end Docblock
