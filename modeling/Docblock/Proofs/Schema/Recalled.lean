import Docblock.Proofs.Schema.Faithful

/-!
# Running the recall of a schema

A schema is remembered, or its class is known to be no annotation, or found to be none, or the class
is being read already, or reading it succeeds or fails. These are all the cases, and each has one
equation.
-/

namespace Docblock

namespace ClassName

theorem registered_eq_self {name : String} (h : name.toList.head? ≠ some '\\') :
    registered name = name := by
  unfold registered
  split
  · next rest hrest =>
    rw [hrest] at h
    exact absurd rfl h
  · rfl

theorem registered_bare (name : String) : registered (bare name) = bare name :=
  registered_eq_self (head?_bare name)

end ClassName

theorem Registry.name_eq_of_describe? {registry : Registry} {name : String} {c : ClassDeclaration}
    (hname : ClassName.bare name = name) (hc : registry.describe? name = some c) :
    c.name = name := by
  rw [name_of_describe? hc, ← hname, ClassName.registered_bare]

namespace Reflection

variable {registry : Registry} {build : ClassDeclaration → Lookup AnnotationSchema}
  {name : String} {m mid : Memory} {c : ClassDeclaration}

theorem recalled_found {schema : AnnotationSchema} (h : m.schemas.find? name = some schema) :
    (recalled registry build name).result m = (.ok (some schema), m) := by
  unfold recalled
  rw [Lookup.result_get_bind]
  rw [h]
  rfl

theorem recalled_known (h : m.schemas.find? name = none) (hplain : m.isPlain name = true) :
    (recalled registry build name).result m = (.ok none, m) := by
  unfold recalled
  rw [Lookup.result_get_bind]
  rw [h]
  dsimp only
  rw [Lookup.result_get_bind]
  rw [if_pos hplain]
  rfl

/-- A schema that is not remembered is what is remembered after reading the class. -/
theorem recalled_missing (h : m.schemas.find? name = none) (hplain : m.isPlain name = false) :
    (recalled registry build name).result m =
      match (reflect registry build name).result m with
      | (.ok (), n) => (.ok (n.schemas.find? name), n)
      | (.error e, n) => (.error e, n) := by
  unfold recalled
  rw [Lookup.result_get_bind]
  rw [h]
  dsimp only
  rw [Lookup.result_get_bind]
  rw [if_neg (by simp [hplain]), Lookup.result_bind]
  cases (reflect registry build name).result m with
  | mk outcome n => cases outcome <;> rfl

theorem reflect_plain (h : IsPlain registry name) :
    (reflect registry build name).result m = (.ok (), m.markPlain name) := by
  unfold reflect
  cases hc : registry.describe? name with
  | none => rfl
  | some c =>
    dsimp only
    rw [h c hc]
    rfl

variable (hc : registry.describe? name = some c) (hmarked : Text.occursIn marker c.doc = true)

include hc hmarked

theorem reflect_circular (hopen : name ∈ m.reflecting) :
    (reflect registry build name).result m = (.error (.circular name), m) := by
  unfold reflect
  rw [hc]
  dsimp only
  rw [hmarked]
  have hcontains : m.reflecting.contains name = true := by simpa using hopen
  simp only [Bool.not_true, Bool.false_eq_true, if_false]
  rw [Lookup.result_get_bind]
  rw [if_pos hcontains]
  rfl

/-- A class that is not being read is entered, read and left. -/
theorem reflect_entered (hopen : name ∉ m.reflecting) :
    (reflect registry build name).result m =
      match (build c).result (m.enter name) with
      | (.error e, mid) => (.error e, mid.leave name)
      | (.ok schema, mid) =>
        match mid.schemas.add schema with
        | .ok schemas => (.ok (), { mid.leave name with schemas })
        | .error e => (.error (.schema e), mid.leave name) := by
  unfold reflect
  rw [hc]
  dsimp only
  rw [hmarked]
  have hcontains : m.reflecting.contains name = false := by simpa using hopen
  simp only [Bool.not_true, Bool.false_eq_true, if_false]
  rw [Lookup.result_get_bind]
  rw [hcontains]
  simp only [Bool.false_eq_true, if_false]
  rw [Lookup.result_modify_bind]
  rw [Lookup.result_bind, Lookup.result_lift_run]
  dsimp only
  rw [Lookup.result_modify_bind]
  cases hrun : (build c).result (m.enter name) with
  | mk outcome mid =>
    cases outcome with
    | error e => rfl
    | ok schema =>
      dsimp only
      rw [Lookup.result_get_bind]
      change (match mid.schemas.add schema with
        | .ok schemas => _
        | .error e => _ : Lookup Unit).result _ = _
      cases mid.schemas.add schema <;> rfl

omit hc hmarked in
/-- A class is entered, or its builder does not matter and no schema is added. -/
theorem recalled_cases (registry : Registry) (name : String) (m : Memory) :
    (∃ outcome n, n.schemas = m.schemas ∧ n.reflecting = m.reflecting ∧
      ∀ build, (recalled registry build name).result m = (outcome, n)) ∨
    ∃ c, registry.describe? name = some c ∧ Text.occursIn marker c.doc = true ∧
      name ∉ m.reflecting ∧ m.schemas.find? name = none ∧ m.isPlain name = false := by
  cases hfound : m.schemas.find? name with
  | some schema => exact .inl ⟨_, m, rfl, rfl, fun build => recalled_found hfound⟩
  | none =>
    cases hplain : m.isPlain name with
    | true => exact .inl ⟨_, m, rfl, rfl, fun build => recalled_known hfound hplain⟩
    | false =>
      by_cases hclass : IsPlain registry name
      · refine .inl ⟨.ok none, m.markPlain name, rfl, rfl, fun build => ?_⟩
        rw [recalled_missing hfound hplain, reflect_plain hclass]
        exact congrArg (fun found => (Except.ok found, m.markPlain name)) hfound
      · obtain ⟨c, hc, hmarked⟩ : ∃ c, registry.describe? name = some c ∧
            Text.occursIn marker c.doc = true := by
          simpa [IsPlain] using hclass
        by_cases hopen : name ∈ m.reflecting
        · refine .inl ⟨.error (.circular name), m, rfl, rfl, fun build => ?_⟩
          rw [recalled_missing hfound hplain, reflect_circular hc hmarked hopen]
        · exact .inr ⟨c, hc, hmarked, hopen, rfl, rfl⟩

end Reflection

end Docblock
