import Docblock.Reading.DocText

/-!
# Running lookups and readers

A lookup gives a value or an error and leaves a memory behind in either case; a reader also moves a
window. The equations below run both step by step, so that no proof has to open the monads.
-/

namespace Docblock

section Outcome

variable {ε σ α β : Type} {outcome : Except ε α} {f : α → β} {b : β}

/-- An outcome of which something is known to hold is no error. -/
theorem Except.exists_ok_of_map (h : outcome.toOption.map f = some b) :
    ∃ a, outcome = .ok a ∧ f a = b := by
  cases outcome with
  | error e => cases h
  | ok a => exact ⟨a, rfl, Option.some.inj h⟩

theorem Except.exists_run_of_map {run : Except ε α × σ} (h : run.1.toOption.map f = some b) :
    ∃ a after, run = (.ok a, after) ∧ f a = b := by
  obtain ⟨outcome, after⟩ := run
  obtain ⟨a, rfl, ha⟩ := Except.exists_ok_of_map h
  exact ⟨a, after, rfl, ha⟩

theorem Except.exists_error_of_map (h : outcome.toOption.map f = none) :
    ∃ e, outcome = .error e := by
  cases outcome with
  | error e => exact ⟨e, rfl⟩
  | ok a => cases h

end Outcome

/-- What a lookup gives, and the memory after it. -/
def Lookup.result {α : Type} (x : Lookup α) (m : Memory) : Except AnnotationError α × Memory :=
  x.run.run m

namespace Lookup

variable {α β : Type}

@[simp] theorem result_pure (a : α) (m : Memory) : (pure a : Lookup α).result m = (.ok a, m) := rfl

@[simp] theorem result_throw (e : AnnotationError) (m : Memory) :
    (throw e : Lookup α).result m = (.error e, m) := rfl

theorem result_bind (x : Lookup α) (f : α → Lookup β) (m : Memory) :
    (x >>= f).result m = match x.result m with
      | (.ok a, n) => (f a).result n
      | (.error e, n) => (.error e, n) := by
  change (x.run.run m >>= fun p => (ExceptT.bindCont f p.1).run p.2) = _
  unfold result
  cases h : (x.run.run m : Except AnnotationError α × Memory) with
  | mk r n => cases r <;> rfl

theorem result_bind_ok {x : Lookup α} {f : α → Lookup β} {m n : Memory} {a : α}
    (h : x.result m = (.ok a, n)) : (x >>= f).result m = (f a).result n := by
  rw [result_bind, h]

theorem result_bind_error {x : Lookup α} {f : α → Lookup β} {m n : Memory} {e : AnnotationError}
    (h : x.result m = (.error e, n)) : (x >>= f).result m = (.error e, n) := by
  rw [result_bind, h]

@[simp] theorem result_recall (x : Recall α) (m : Memory) :
    (liftM x : Lookup α).result m = (.ok (x.run m).1, (x.run m).2) := rfl

@[simp] theorem result_get (m : Memory) : (get : Lookup Memory).result m = (.ok m, m) := rfl

@[simp] theorem result_modify (f : Memory → Memory) (m : Memory) :
    (modify f : Lookup Unit).result m = (.ok (), f m) := rfl

theorem bind_eq_ok {x : Lookup α} {f : α → Lookup β} {m o : Memory} {b : β}
    (h : (x >>= f).result m = (.ok b, o)) :
    ∃ a n, x.result m = (.ok a, n) ∧ (f a).result n = (.ok b, o) := by
  rw [result_bind] at h
  cases hx : x.result m with
  | mk r n =>
    rw [hx] at h
    cases r with
    | ok a => exact ⟨a, n, rfl, h⟩
    | error e => cases h

theorem result_get_bind (f : Memory → Lookup β) (m : Memory) :
    (get >>= f).result m = (f m).result m := rfl

theorem result_modify_bind (g : Memory → Memory) (f : Unit → Lookup β) (m : Memory) :
    (modify g >>= f).result m = (f ()).result (g m) := rfl

theorem result_lift_run (x : Lookup α) (m : Memory) :
    Lookup.result (ExceptT.lift x.run) m = (.ok (x.result m).1, (x.result m).2) := rfl

def ofExcept : Except AnnotationError α → Lookup α
  | .ok a => pure a
  | .error e => throw e

@[simp] theorem result_ofExcept (r : Except AnnotationError α) (m : Memory) :
    (ofExcept r).result m = (r, m) := by cases r <;> rfl

def Returns (x : Lookup α) (a : α) : Prop := ∃ m n, x.result m = (.ok a, n)

theorem eq_ok_of_returns {answer : Except AnnotationError α} {a : α}
    (h : (liftM answer : Lookup α).Returns a) : answer = .ok a := by
  obtain ⟨m, n, hrun⟩ := h
  cases answer with
  | ok b => exact (Prod.mk.inj hrun).1
  | error e => cases hrun

end Lookup

/-- What a reader gives at a window with the window after it, and the memory after it. -/
def Reading.result {α : Type} (x : Reading α) (w : Window) (m : Memory) :
    Except AnnotationError (α × Window) × Memory :=
  (x.run w).result m

namespace Reading

variable {α β : Type}

@[simp] theorem result_pure (a : α) (w : Window) (m : Memory) :
    (pure a : Reading α).result w m = (.ok (a, w), m) := rfl

@[simp] theorem result_throw (e : AnnotationError) (w : Window) (m : Memory) :
    (throw e : Reading α).result w m = (.error e, m) := rfl

theorem result_bind (x : Reading α) (f : α → Reading β) (w : Window) (m : Memory) :
    (x >>= f).result w m = match x.result w m with
      | (.ok (a, v), n) => (f a).result v n
      | (.error e, n) => (.error e, n) := by
  unfold result
  rw [StateT.run_bind, Lookup.result_bind]
  cases (x.run w).result m with
  | mk r n => cases r <;> rfl

theorem result_bind_ok {x : Reading α} {f : α → Reading β} {w v : Window} {m n : Memory} {a : α}
    (h : x.result w m = (.ok (a, v), n)) : (x >>= f).result w m = (f a).result v n := by
  rw [result_bind, h]

theorem result_bind_error {x : Reading α} {f : α → Reading β} {w : Window} {m n : Memory}
    {e : AnnotationError} (h : x.result w m = (.error e, n)) :
    (x >>= f).result w m = (.error e, n) := by
  rw [result_bind, h]

@[simp] theorem result_get (w : Window) (m : Memory) :
    (get : Reading Window).result w m = (.ok (w, w), m) := rfl

@[simp] theorem result_modify (f : Window → Window) (w : Window) (m : Memory) :
    (modify f : Reading Unit).result w m = (.ok ((), f w), m) := rfl

theorem bind_eq_ok {x : Reading α} {f : α → Reading β} {w u : Window} {m o : Memory} {b : β}
    (h : (x >>= f).result w m = (.ok (b, u), o)) :
    ∃ a v n, x.result w m = (.ok (a, v), n) ∧ (f a).result v n = (.ok (b, u), o) := by
  rw [result_bind] at h
  cases hx : x.result w m with
  | mk r n =>
    rw [hx] at h
    cases r with
    | ok p => exact ⟨p.1, p.2, n, rfl, h⟩
    | error e => cases h

theorem result_get_bind (f : Window → Reading β) (w : Window) (m : Memory) :
    (get >>= f).result w m = (f w).result w m := rfl

@[simp] theorem result_recall (x : Recall α) (w : Window) (m : Memory) :
    (liftM x : Reading α).result w m = (.ok ((x.run m).1, w), (x.run m).2) := rfl

theorem result_lookup (x : Lookup α) (w : Window) (m : Memory) :
    (liftM x : Reading α).result w m = match x.result m with
      | (.ok a, n) => (.ok (a, w), n)
      | (.error e, n) => (.error e, n) := by
  change (x >>= fun a => pure (a, w) : Lookup (α × Window)).result m = _
  rw [Lookup.result_bind]
  cases x.result m with
  | mk r n => cases r <;> rfl

@[simp] theorem result_skip (w : Window) (m : Memory) :
    skip.result w m = (.ok ((), w.advance), m) := rfl

@[simp] theorem result_isNext (kind : TokenKind) (w : Window) (m : Memory) :
    (isNext kind).result w m = (.ok (w.isNext kind, w), m) := rfl

@[simp] theorem result_unexpected (scope : Scope) (expected : Expectation) (w : Window)
    (m : Memory) : (unexpected scope expected : Reading α).result w m =
      (.error (.unexpected expected (w.lookahead.map Found.ofToken) scope.context), m) := rfl

def Returns (x : Reading α) (a : α) : Prop := ∃ w m v n, x.result w m = (.ok (a, v), n)

theorem returns_of_lookup {x : Lookup α} {a : α} (h : (liftM x : Reading α).Returns a) :
    x.Returns a := by
  obtain ⟨w, m, v, n, hrun⟩ := h
  rw [result_lookup] at hrun
  cases hsource : x.result m with
  | mk outcome o =>
    rw [hsource] at hrun
    cases outcome with
    | error e => cases hrun
    | ok answer =>
      obtain ⟨hpair, -⟩ := Prod.mk.inj hrun
      obtain ⟨rfl, -⟩ := Prod.mk.inj (Except.ok.inj hpair)
      exact ⟨m, o, hsource⟩

end Reading

theorem result_readDoc {scope : Scope} {target : Target} {input body : String}
    (hbody : DocText.body? input = some body) (m : Memory) :
    (readDoc scope target input).result m =
      match (Reading.annotations scope target (Token.scan body).length).result
        (.ofTokens (Token.scan body)) m with
      | (.ok (found, _), n) => (.ok found, n)
      | (.error e, n) => (.error e, n) := by
  unfold readDoc
  rw [hbody]
  dsimp only
  rw [map_eq_pure_bind, Lookup.result_bind]
  unfold Reading.result
  split
  · next hrun =>
    rw [hrun]
    rfl
  · next hrun => rw [hrun]

end Docblock
