import Docblock.Proofs.Lookup.Recall
import Docblock.Proofs.Object.OwnErrors
import Docblock.Reading.DocText

/-!
# Properties of readers

Readers pass tokens, ask for classes and for schemas, and fail with errors about the text. A
property that these steps have and that sequences keep is a property of every reader, of those of
names and values as of those of annotations and whole texts.
-/

namespace Docblock

structure ReadingProperty (scope : Scope) where
  Holds : {α : Type} → Reading α → Prop
  holds_pure : ∀ {α : Type} (a : α), Holds (pure a)
  holds_bind : ∀ {α β : Type} {x : Reading α} {f : α → Reading β}, Holds x → (∀ a, Holds (f a)) →
    Holds (x >>= f)
  holds_get : Holds get
  holds_skip : Holds Reading.skip
  holds_throw : ∀ {α : Type} {e : AnnotationError}, e.IsOfText → Holds (throw e : Reading α)
  holds_exists : ∀ name, Holds (liftM (classExists scope.registry name) : Reading Bool)
  holds_schema : ∀ name,
    Holds (liftM (scope.schemaOf name) : Reading (Option AnnotationSchema))

namespace ReadingProperty

variable {scope : Scope} (p : ReadingProperty scope) {α : Type}

def recallProperty : RecallProperty scope.registry where
  Holds x := p.Holds (liftM x)
  holds_pure := p.holds_pure
  holds_bind hx hf := p.holds_bind hx hf
  holds_exists := p.holds_exists

theorem holds_except {x : Except AnnotationError α} (h : FailsOnly AnnotationError.IsOfText x) :
    p.Holds (liftM x : Reading α) := by
  cases x with
  | ok a => exact p.holds_pure a
  | error e => exact p.holds_throw (h e rfl)

theorem holds_unexpected (expected : Expectation) :
    p.Holds (Reading.unexpected scope expected : Reading α) :=
  p.holds_bind p.holds_get fun _ => p.holds_throw trivial

theorem holds_isNext (kind : TokenKind) : p.Holds (Reading.isNext kind) :=
  p.holds_bind p.holds_get fun _ => p.holds_pure _

theorem holds_expectAny (kinds : List TokenKind) : p.Holds (Reading.expectAny scope kinds) := by
  refine p.holds_bind p.holds_get fun w => ?_
  split
  · split
    · exact p.holds_bind p.holds_skip fun _ => p.holds_pure _
    · exact p.holds_unexpected _
  · exact p.holds_unexpected _

theorem holds_expect (kind : TokenKind) : p.Holds (Reading.expect scope kind) :=
  p.holds_expectAny [kind]

theorem holds_moreItems (closer : TokenKind) {item : Reading α} (h : p.Holds item) (steps : Nat) :
    p.Holds (Reading.moreItems closer item steps) := by
  induction steps with
  | zero => exact p.holds_pure []
  | succ steps ih =>
    refine p.holds_bind (p.holds_isNext _) fun comma => ?_
    split
    · exact p.holds_pure []
    · refine p.holds_bind p.holds_skip fun _ => p.holds_bind (p.holds_isNext _) fun closed => ?_
      split
      · exact p.holds_pure []
      · exact p.holds_bind h fun _ => p.holds_bind ih fun _ => p.holds_pure _

theorem holds_items (closer : TokenKind) {item : Reading α} (h : p.Holds item) :
    p.Holds (Reading.items closer item) :=
  p.holds_bind h fun _ => p.holds_bind p.holds_get fun _ =>
    p.holds_bind (p.holds_moreItems closer h _) fun _ => p.holds_pure _

theorem holds_nameParts (steps : Nat) : p.Holds (Reading.nameParts scope steps) := by
  induction steps with
  | zero => exact p.holds_pure ""
  | succ steps ih =>
    refine p.holds_bind p.holds_get fun w => ?_
    split
    · exact p.holds_pure ""
    · exact p.holds_bind (p.holds_expect _) fun _ => p.holds_bind (p.holds_expectAny _) fun _ =>
        p.holds_bind ih fun _ => p.holds_pure _

theorem holds_identifier : p.Holds (Reading.identifier scope) := by
  have hrest : p.Holds
      (do let first ← Reading.expectAny scope Reading.classParts
          let rest ← Reading.nameParts scope (← get).ahead.length
          return first.text ++ rest) :=
    p.holds_bind (p.holds_expectAny _) fun _ => p.holds_bind p.holds_get fun _ =>
      p.holds_bind (p.holds_nameParts _) fun _ => p.holds_pure _
  refine p.holds_bind p.holds_get fun w => ?_
  dsimp only
  split
  · exact p.holds_bind (p.holds_unexpected _) fun _ => hrest
  · exact hrest

theorem holds_constant : p.Holds (Reading.constant scope) := by
  refine p.holds_bind p.holds_identifier fun written => ?_
  refine p.holds_bind (p.recallProperty.holds_resolveReference _ _) fun reference => ?_
  split
  · exact p.holds_pure _
  · exact p.holds_throw trivial

theorem holds_literal (v : Value) : p.Holds (Reading.literal v) :=
  p.holds_bind p.holds_skip fun _ => p.holds_pure _

theorem holds_valueWith {collection : Reading (OrderedMap Value)}
    {object : Reading (Option Annotation)} (hcollection : p.Holds collection)
    (hobject : p.Holds object) : p.Holds (Reading.valueWith scope collection object) := by
  have hconstant : p.Holds (return some (← Reading.constant scope)) :=
    p.holds_bind p.holds_constant fun _ => p.holds_pure _
  refine p.holds_bind p.holds_get fun w => ?_
  split
  · exact p.holds_unexpected _
  next t _ =>
    cases t.kind with
    | openBrace => exact p.holds_bind hcollection fun _ => p.holds_pure _
    | atSign => exact p.holds_bind hobject fun _ => p.holds_pure _
    | identifier => exact hconstant
    | qualifiedName => exact hconstant
    | float =>
      dsimp only
      split
      · exact p.holds_literal _
      · exact p.holds_unexpected _
    | string | integer | trueWord | falseWord | nullWord => exact p.holds_literal _
    | separator | openParen | closeParen | closeBrace | comma | colon | equals | other =>
      exact p.holds_unexpected _

theorem holds_entryKey : p.Holds (Reading.entryKey scope) := by
  refine p.holds_bind p.holds_get fun w => ?_
  split
  · refine p.holds_bind p.holds_constant fun v => ?_
    split
    · exact p.holds_pure _
    · exact p.holds_throw trivial
  · exact p.holds_bind (p.holds_expectAny _) fun _ => p.holds_pure _

section Value

variable {value : Reading (Option Value)} (hvalue : p.Holds value)

include hvalue

theorem holds_entry : p.Holds (Reading.entry scope value) := by
  refine p.holds_bind p.holds_get fun w => ?_
  split
  · exact p.holds_bind p.holds_entryKey fun _ => p.holds_bind (p.holds_expectAny _) fun _ =>
      p.holds_bind hvalue fun _ => p.holds_pure _
  · exact p.holds_bind hvalue fun _ => p.holds_pure _

theorem holds_collection : p.Holds (Reading.collection scope value) := by
  refine p.holds_bind (p.holds_expect _) fun _ => p.holds_bind (p.holds_isNext _) fun closed => ?_
  split
  · exact p.holds_bind p.holds_skip fun _ => p.holds_pure _
  · exact p.holds_bind (p.holds_items _ (p.holds_entry hvalue)) fun _ =>
      p.holds_bind (p.holds_expect _) fun _ => p.holds_pure _

theorem holds_argument : p.Holds (Reading.argument scope value) := by
  refine p.holds_bind p.holds_get fun w => ?_
  split
  · exact p.holds_bind (p.holds_expect _) fun _ => p.holds_bind (p.holds_expect _) fun _ =>
      p.holds_bind hvalue fun _ => p.holds_pure _
  · exact p.holds_bind hvalue fun _ => p.holds_pure _

theorem holds_arguments : p.Holds (Reading.arguments scope value) := by
  refine p.holds_bind (p.holds_isNext _) fun present => ?_
  split
  · exact p.holds_pure _
  · refine p.holds_bind p.holds_skip fun _ => p.holds_bind (p.holds_isNext _) fun closed => ?_
    have hclose (given : List (Option Argument)) : p.Holds
        (do let _ ← Reading.expect scope .closeParen
            return Argument.fold (given.filterMap id)) :=
      p.holds_bind (p.holds_expect _) fun _ => p.holds_pure _
    split
    · exact p.holds_bind (p.holds_pure []) hclose
    · exact p.holds_bind (p.holds_items _ (p.holds_argument hvalue)) hclose

end Value

theorem holds_annotationClass? (written : String) :
    p.Holds (Reading.annotationClass? scope written) := by
  unfold Reading.annotationClass?
  split
  · exact p.holds_pure _
  · refine p.holds_bind (p.recallProperty.holds_resolveAnnotation? _ _) fun found => ?_
    split
    · exact p.holds_pure _
    · split
      · exact p.holds_pure _
      · exact p.holds_throw trivial

theorem holds_annotationSchema? (written className : String) :
    p.Holds (Reading.annotationSchema? scope written className) := by
  refine p.holds_bind (p.holds_exists className) fun present => ?_
  dsimp only
  split
  case' isTrue => refine p.holds_bind (p.holds_throw trivial) fun _ => ?_
  -- The schema is looked up whether or not the class was found to exist.
  all_goals
    refine p.holds_bind (p.holds_schema className) fun found => ?_
    split
    · exact p.holds_pure _
    · split
      · exact p.holds_pure _
      · exact p.holds_throw trivial

theorem holds_object (target : Target) {value : Reading (Option Value)} (hvalue : p.Holds value) :
    p.Holds (Reading.object scope target value) := by
  refine p.holds_bind (p.holds_expect _) fun _ => p.holds_bind p.holds_identifier fun written => ?_
  refine p.holds_bind (p.holds_annotationClass? written) fun found => ?_
  split
  · exact p.holds_pure _
  · refine p.holds_bind (p.holds_annotationSchema? written _) fun found => ?_
    cases found with
    | none => exact p.holds_pure _
    | some schema =>
      have hmake : p.Holds
          (do let values ← Reading.arguments scope value
              return some (← schema.objectOf scope.registry ⟨written, scope.context⟩ values)) :=
        p.holds_bind (p.holds_arguments hvalue) fun _ =>
          p.holds_bind (p.holds_except (schema.failsOnly_objectOf _ _ _)) fun _ => p.holds_pure _
      dsimp only
      split
      · exact p.holds_bind (p.holds_throw trivial) fun _ => hmake
      · exact hmake

theorem holds_value (room : Nat) : p.Holds (Reading.value scope room) := by
  induction room with
  | zero => exact p.holds_valueWith (p.holds_unexpected _) (p.holds_unexpected _)
  | succ room ih => exact p.holds_valueWith (p.holds_collection ih) (p.holds_object .nested ih)

theorem holds_annotations (target : Target) (steps : Nat) :
    p.Holds (Reading.annotations scope target steps) := by
  induction steps with
  | zero => exact p.holds_pure []
  | succ steps ih =>
    refine p.holds_bind p.holds_get fun w => ?_
    split
    · exact p.holds_pure []
    · split
      · exact p.holds_bind (p.holds_object target (p.holds_value _)) fun _ =>
          p.holds_bind ih fun _ => p.holds_pure _
      · exact p.holds_bind p.holds_skip fun _ => ih

end ReadingProperty

end Docblock
