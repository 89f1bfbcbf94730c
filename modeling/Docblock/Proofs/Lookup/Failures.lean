import Docblock.Proofs.Lookup.Property
import Docblock.Proofs.Lookup.Run

/-!
# How lookups and readers fail

A reader fails because of its text, or because looking for a schema fails. So whatever is said of
errors about texts and of the errors of the schemas can be said of all errors of reading a text.
-/

namespace Docblock

variable {α β : Type} {allowed : AnnotationError → Prop}

namespace Lookup

/-- A lookup that fails with the allowed errors only, whatever is remembered. -/
def FailsOnly (allowed : AnnotationError → Prop) (x : Lookup α) : Prop :=
  ∀ m n e, x.result m = (.error e, n) → allowed e

theorem failsOnly_pure (a : α) : FailsOnly allowed (pure a) := by
  intro m n e h
  rw [result_pure] at h
  cases h

theorem failsOnly_throw {e : AnnotationError} (h : allowed e) :
    FailsOnly allowed (throw e : Lookup α) := by
  intro m n f hf
  rw [result_throw] at hf
  obtain rfl := Except.error.inj (Prod.mk.inj hf).1
  exact h

theorem failsOnly_recall (x : Recall α) : FailsOnly allowed (liftM x : Lookup α) := by
  intro m n e h
  rw [result_recall] at h
  cases h

theorem failsOnly_ofExcept {x : Except AnnotationError α} (h : Docblock.FailsOnly allowed x) :
    FailsOnly allowed (ofExcept x) := by
  intro m n e hrun
  rw [result_ofExcept] at hrun
  exact h e (Prod.mk.inj hrun).1

theorem failsOnly_except {x : Except AnnotationError α} (h : Docblock.FailsOnly allowed x) :
    FailsOnly allowed (liftM x : Lookup α) := by
  cases x with
  | ok a => exact failsOnly_pure a
  | error e => exact failsOnly_throw (h e rfl)

theorem FailsOnly.bind {x : Lookup α} {f : α → Lookup β} (hx : FailsOnly allowed x)
    (hf : ∀ a, x.Returns a → FailsOnly allowed (f a)) : FailsOnly allowed (x >>= f) := by
  intro m n e h
  rw [result_bind] at h
  cases hrun : x.result m with
  | mk outcome o =>
    rw [hrun] at h
    cases outcome with
    | error d =>
      obtain rfl := Except.error.inj (Prod.mk.inj h).1
      exact hx m o d hrun
    | ok a => exact hf a ⟨m, o, hrun⟩ o n e h

theorem FailsOnly.map_result {x : Lookup α} (h : FailsOnly allowed x) {f : α → β} (m : Memory) :
    Docblock.FailsOnly allowed ((x.result m).1.map f) := by
  cases hrun : x.result m with
  | mk outcome n =>
    cases outcome with
    | ok a => exact failsOnly_ok (f a)
    | error e => exact failsOnly_error (h m n e hrun)

end Lookup

namespace Reading

def FailsOnly (allowed : AnnotationError → Prop) (x : Reading α) : Prop :=
  ∀ w, Lookup.FailsOnly allowed (x.run w)

variable {scope : Scope}

def failing (scope : Scope) (htext : ∀ e : AnnotationError, e.IsOfText → allowed e)
    (hschema : ∀ name, Lookup.FailsOnly allowed (scope.schemaOf name)) : ReadingProperty scope where
  Holds := FailsOnly allowed
  holds_pure a _ := Lookup.failsOnly_pure (a, _)
  holds_bind hx hf w := (hx w).bind fun a _ => hf a.1 a.2
  holds_get w := Lookup.failsOnly_pure (w, w)
  holds_skip w := Lookup.failsOnly_pure ((), w.advance)
  holds_throw he _ := Lookup.failsOnly_throw (htext _ he)
  holds_exists _ w := (Lookup.failsOnly_recall _).bind fun a _ => Lookup.failsOnly_pure (a, w)
  holds_schema name w := (hschema name).bind fun a _ => Lookup.failsOnly_pure (a, w)

end Reading

theorem failsOnly_readDoc {scope : Scope} (htext : ∀ e : AnnotationError, e.IsOfText → allowed e)
    (hschema : ∀ name, Lookup.FailsOnly allowed (scope.schemaOf name)) (target : Target)
    (input : String) : Lookup.FailsOnly allowed (readDoc scope target input) := by
  unfold readDoc
  cases DocText.body? input with
  | none => exact Lookup.failsOnly_pure []
  | some body =>
    dsimp only
    rw [map_eq_pure_bind]
    have hread := (Reading.failing scope htext hschema).holds_annotations target
      (Token.scan body).length
    exact (hread (.ofTokens (Token.scan body))).bind fun found _ => Lookup.failsOnly_pure found.1

end Docblock
