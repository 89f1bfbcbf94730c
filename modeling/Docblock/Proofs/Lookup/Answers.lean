import Docblock.Proofs.Grammar.Constant
import Docblock.Proofs.Lookup.Run

/-!
# Answers that nothing remembered changes

A memory that knows only what is so saves looks at the classes, and no answer depends on it.
-/

namespace Docblock

namespace Lookup

variable {registry : Registry} {α β : Type}

/-- The answer to the lookup, whatever is remembered. -/
def Answers (registry : Registry) (x : Lookup α) (r : Except AnnotationError α) : Prop :=
  ∀ m, m.Knows registry → ∃ n, n.Knows registry ∧ x.result m = (r, n)

theorem answers_pure (a : α) : Answers registry (pure a) (.ok a) := fun m hm => ⟨m, hm, rfl⟩

theorem answers_throw (e : AnnotationError) : Answers registry (throw e : Lookup α) (.error e) :=
  fun m hm => ⟨m, hm, rfl⟩

theorem answers_ofExcept (r : Except AnnotationError α) : Answers registry (ofExcept r) r :=
  fun m hm => ⟨m, hm, result_ofExcept r m⟩

theorem answers_recall {x : Recall α} {a : α} (h : x.Gives registry a) :
    Answers registry (liftM x) (.ok a) := by
  intro m hm
  obtain ⟨n, hn, hrun⟩ := h m hm
  refine ⟨n, hn, ?_⟩
  rw [result_recall, hrun]

theorem answers_bind {x : Lookup α} {f : α → Lookup β} {r : Except AnnotationError α}
    {g : α → Except AnnotationError β} (hx : Answers registry x r)
    (hf : ∀ a, r = .ok a → Answers registry (f a) (g a)) :
    Answers registry (x >>= f) (r >>= g) := by
  intro m hm
  obtain ⟨n, hn, hrun⟩ := hx m hm
  cases r with
  | error e => exact ⟨n, hn, result_bind_error hrun⟩
  | ok a =>
    rw [result_bind_ok hrun]
    exact hf a rfl n hn

theorem answers_ok_bind {x : Lookup α} {f : α → Lookup β} {a : α} {r : Except AnnotationError β}
    (hx : Answers registry x (.ok a)) (hf : Answers registry (f a) r) :
    Answers registry (x >>= f) r := by
  intro m hm
  obtain ⟨n, hn, hrun⟩ := hx m hm
  rw [result_bind_ok hrun]
  exact hf n hn

theorem answers_error_bind {x : Lookup α} {e : AnnotationError} (hx : Answers registry x (.error e))
    (f : α → Lookup β) : Answers registry (x >>= f) (.error e) := by
  intro m hm
  obtain ⟨n, hn, hrun⟩ := hx m hm
  exact ⟨n, hn, result_bind_error hrun⟩

end Lookup

end Docblock
