import Docblock.Proofs.Lookup.Corresponding

/-!
# Running the annotations of a text

At the end of a text no annotation is read, a token that starts none is passed over, and one that
starts an annotation is followed by what the rest of the text gives. As every step passes a token,
the steps allotted to a text are enough to come to its end.
-/

namespace Docblock

namespace Reading

def prepend (as : List Annotation) :
    Except AnnotationError (List Annotation × Window) × Memory →
      Except AnnotationError (List Annotation × Window) × Memory
  | (.ok (bs, w), m) => (.ok (as ++ bs, w), m)
  | (.error e, m) => (.error e, m)

theorem prepend_prepend (as bs : List Annotation)
    (outcome : Except AnnotationError (List Annotation × Window) × Memory) :
    prepend as (prepend bs outcome) = prepend (as ++ bs) outcome := by
  obtain ⟨answer, m⟩ := outcome
  cases answer with
  | ok found => simp [prepend]
  | error e => rfl

theorem eq_of_prepend_eq_ok {as all : List Annotation} {w : Window} {m : Memory}
    {outcome : Except AnnotationError (List Annotation × Window) × Memory}
    (h : prepend as outcome = (.ok (all, w), m)) :
    ∃ bs, outcome = (.ok (bs, w), m) ∧ all = as ++ bs := by
  obtain ⟨answer, n⟩ := outcome
  cases answer with
  | ok found =>
    obtain ⟨hfound, rfl⟩ := Prod.mk.inj h
    obtain ⟨rfl, rfl⟩ := Prod.mk.inj (Except.ok.inj hfound)
    exact ⟨_, rfl, rfl⟩
  | error e => cases h

variable {scope : Scope} {target : Target} {w v : Window} {steps : Nat} {t : Token}
  {ts : List Token}

theorem length_advance (h : w.ahead = t :: ts) : w.advance.ahead.length + 1 = w.ahead.length := by
  unfold Window.advance
  rw [h]
  rfl

theorem result_annotations_end (hend : w.ahead = []) (m : Memory) :
    (annotations scope target steps).result w m = (.ok ([], w), m) := by
  unfold result
  rw [Correspondence.run_annotations_end scope target steps hend]
  rfl

theorem result_annotations_skip (hahead : w.ahead = t :: ts) (h : startsAnnotation w = false)
    (m : Memory) : (annotations scope target (steps + 1)).result w m =
      (annotations scope target steps).result w.advance m := by
  rw [annotations, result_get_bind, hahead, h]
  rfl

theorem result_annotations_object (hahead : w.ahead = t :: ts) (h : startsAnnotation w = true)
    (m : Memory) : (annotations scope target (steps + 1)).result w m =
      match (object scope target (value scope maxNesting)).result w m with
      | (.ok (found, u), n) =>
        prepend found.toList ((annotations scope target steps).result u n)
      | (.error e, n) => (.error e, n) := by
  rw [annotations, result_get_bind, hahead, h]
  dsimp only [List.isEmpty_cons]
  simp only [Bool.false_eq_true, if_false, if_true]
  rw [result_bind]
  cases (object scope target (value scope maxNesting)).result w m with
  | mk outcome n =>
    cases outcome with
    | error e => rfl
    | ok found =>
      dsimp only
      rw [result_bind]
      cases (annotations scope target steps).result found.2 n with
      | mk outcome o => cases outcome <;> rfl

theorem prepend_nil (outcome : Except AnnotationError (List Annotation × Window) × Memory) :
    prepend [] outcome = outcome := by
  obtain ⟨answer, m⟩ := outcome
  cases answer <;> rfl

theorem eq_nil_of_end (hend : w.ahead = []) {m m' : Memory} {as : List Annotation}
    {last : Window} (h : (annotations scope target steps).result w m = (.ok (as, last), m')) :
    as = [] := by
  rw [result_annotations_end hend] at h
  obtain ⟨hnil, -⟩ := Prod.mk.inj h
  exact (Prod.mk.inj (Except.ok.inj hnil)).1.symm

/-- Every success passes tokens. Nothing is said of failures. -/
def passing (registry : Registry) : Correspondence registry where
  exchange := .none
  rest := []
  quiet := Glyph.quiet_nil
  Related R x _ := ∀ m a n, x.result m = (.ok a, n) → ∃ b, R a b
  related_pure := by
    rintro α β R a b hab m _ n ⟨⟩
    exact ⟨b, hab⟩
  related_bind := by
    intro α β γ δ R S x y f g hx hf m c o hrun
    obtain ⟨a, n, hfirst, hrest⟩ := Lookup.bind_eq_ok hrun
    obtain ⟨b, hab⟩ := hx m a n hfirst
    exact hf a b hab n c o hrest
  related_throw := by
    rintro α β R e f he h m a n ⟨⟩
  related_swapped h := absurd h (Exchange.not_swaps_none _ _)
  related_stuck hrest := absurd rfl hrest
  related_exists _ _ present _ _ := ⟨present, rfl⟩

theorem object_passes {found : Option Annotation} {u : Window} {m n : Memory}
    (h : (object scope target (value scope maxNesting)).result w m = (.ok (found, u), n)) :
    u.ahead.length + 1 ≤ w.ahead.length := by
  let r := passing scope.registry
  have hs (name : String) : r.Related Eq (scope.schemaOf (ClassName.bare name))
      (scope.schemaOf (ClassName.bare name)) := fun _ schema _ _ => ⟨schema, rfl⟩
  have hsame : Window.Follows r.rest w w := (List.append_nil _).symm
  have hu := Correspondence.understands_of_none scope scope.schemaOf r rfl hs
  have hreads := Correspondence.reads_object scope scope.schemaOf r hu target
    (Correspondence.values_value scope scope.schemaOf r hu maxNesting) none [] w w
    (.of_append hsame none [])
  obtain ⟨_, -, hpassed⟩ := hreads m (found, u) n h
  exact hpassed

/-- With a step for every token nothing is left ahead. -/
theorem annotations_reach_end (hsteps : w.ahead.length ≤ steps) {as : List Annotation}
    {last : Window} {m n : Memory}
    (h : (annotations scope target steps).result w m = (.ok (as, last), n)) : last.ahead = [] := by
  induction steps generalizing w m as with
  | zero =>
    have hend := List.length_eq_zero_iff.1 (Nat.le_zero.1 hsteps)
    rw [result_annotations_end hend] at h
    cases h
    exact hend
  | succ steps ih =>
    cases hahead : w.ahead with
    | nil =>
      rw [result_annotations_end hahead] at h
      cases h
      exact hahead
    | cons t ts =>
      cases hstarts : startsAnnotation w with
      | false =>
        rw [result_annotations_skip hahead hstarts] at h
        have hpassed := length_advance hahead
        exact ih (by omega) h
      | true =>
        rw [result_annotations_object hahead hstarts] at h
        cases hobject : (object scope target (value scope maxNesting)).result w m with
        | mk outcome m₂ =>
          rw [hobject] at h
          cases outcome with
          | error e => cases h
          | ok found =>
            obtain ⟨bs, hrest, -⟩ := eq_of_prepend_eq_ok h
            have hpassed := object_passes hobject
            exact ih (by omega) hrest

end Reading

end Docblock
