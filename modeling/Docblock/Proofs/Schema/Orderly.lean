import Docblock.Proofs.Schema.Provision
import Mathlib.Logic.Relation

/-!
# Orderly memories

In an orderly memory the classes being read are distinct marked classes of the registry, and every
schema remembered comes with those of all classes referred to. A schema is added after those that
its class refers to, so no class on a cycle of references ever gets one. Entering a class, leaving
it and adding its schema keep a memory orderly.
-/

namespace Docblock

open Reflection Relation

namespace Memory

/-- The classes being read are distinct and marked. What a remembered schema refers to is provided,
and no class with a remembered schema reaches itself. -/
structure Orderly (registry : Registry) (names : List String) (m : Memory) : Prop where
  distinct : m.reflecting.Nodup
  marked : ∀ name ∈ m.reflecting, ∃ c, registry.describe? name = some c ∧ c.name = name ∧
    Text.occursIn marker c.doc = true
  closed : ∀ name schema other, m.schemas.find? name = some schema →
    References registry names name other → m.Provides registry other
  acyclic : ∀ name schema, m.schemas.find? name = some schema →
    ¬ TransGen (References registry names) name name

variable {registry : Registry} {names : List String} {m n : Memory} {name other : String}

/-- A memory without schemas of its own. -/
theorem orderly_of_standard (hschemas : m.schemas.find? = SchemaTable.standard.find?)
    (hidle : m.reflecting = []) : m.Orderly registry names where
  distinct := by
    rw [hidle]
    exact List.nodup_nil
  marked name hname := by
    rw [hidle] at hname
    cases hname
  closed name schema other hschema hrefers := by
    rw [hschemas, hrefers.1] at hschema
    cases hschema
  acyclic name schema hschema hcycle := by
    obtain ⟨other, hrefers, -⟩ := TransGen.head'_iff.1 hcycle
    rw [hschemas, hrefers.1] at hschema
    cases hschema

/-- Only the schemas and the classes being read matter. -/
theorem Orderly.of_eq (h : m.Orderly registry names) (hschemas : n.schemas = m.schemas)
    (hreflecting : n.reflecting = m.reflecting) : n.Orderly registry names where
  distinct := hreflecting ▸ h.distinct
  marked := hreflecting ▸ h.marked
  closed name schema other hschema hrefers := by
    rw [hschemas] at hschema
    rw [Provides, hschemas]
    exact h.closed name schema other hschema hrefers
  acyclic := hschemas ▸ h.acyclic

theorem Orderly.enter (h : m.Orderly registry names) {c : ClassDeclaration}
    (hopen : name ∉ m.reflecting) (hc : registry.describe? name = some c) (hname : c.name = name)
    (hmarked : Text.occursIn marker c.doc = true) : (m.enter name).Orderly registry names where
  distinct := List.nodup_cons.2 ⟨hopen, h.distinct⟩
  marked other hother := by
    rcases List.mem_cons.1 hother with rfl | hother
    · exact ⟨c, hc, hname, hmarked⟩
    · exact h.marked other hother
  closed := h.closed
  acyclic := h.acyclic

theorem Orderly.leave (h : m.Orderly registry names) (name : String) :
    (m.leave name).Orderly registry names where
  distinct := h.distinct.filter _
  marked other hother := h.marked other (List.mem_filter.1 hother).1
  closed := h.closed
  acyclic := h.acyclic

theorem Orderly.provides_of_references (h : m.Orderly registry names)
    (hprovides : m.Provides registry name) (hrefers : References registry names name other) :
    m.Provides registry other := by
  rcases hprovides with ⟨schema, hschema⟩ | hplain
  · exact h.closed name schema other hschema hrefers
  · exact absurd hplain (not_isPlain_of_references hrefers)

/-- All that a provided class reaches is provided. -/
theorem Orderly.provides_of_reaches (h : m.Orderly registry names)
    (hprovides : m.Provides registry name)
    (hreaches : ReflTransGen (References registry names) name other) :
    m.Provides registry other := by
  induction hreaches with
  | refl => exact hprovides
  | tail _ hrefers ih => exact h.provides_of_references ih hrefers

/-- A class whose references are provided before it does not reach itself. -/
theorem Orderly.not_reaches_self (h : m.Orderly registry names)
    (habsent : m.schemas.find? name = none)
    (hnew : ∀ other, References registry names name other → m.Provides registry other) :
    ¬ TransGen (References registry names) name name := by
  intro hcycle
  obtain ⟨other, hrefers, hreaches⟩ := TransGen.head'_iff.1 hcycle
  rcases h.provides_of_reaches (hnew other hrefers) hreaches with ⟨schema, hschema⟩ | hplain
  · rw [habsent] at hschema
    cases hschema
  · exact not_isPlain_of_references hrefers hplain

/-- A schema can be added once all that its class refers to is provided. -/
theorem Orderly.add (h : m.Orderly registry names) {schema : AnnotationSchema}
    {schemas : SchemaTable} (hadd : m.schemas.add schema = .ok schemas)
    (hnew : ∀ other, References registry names schema.name other → m.Provides registry other) :
    { m with schemas }.Orderly registry names where
  distinct := h.distinct
  marked := h.marked
  closed name found other hfound hrefers := by
    have hprovides : m.Provides registry other := by
      rw [SchemaTable.find?_add hadd] at hfound
      by_cases hsame : name = schema.name
      · exact hnew other (hsame ▸ hrefers)
      · rw [if_neg hsame] at hfound
        exact h.closed name found other hfound hrefers
    exact hprovides.of_extends (Extends.add hadd)
  acyclic name found hfound := by
    rw [SchemaTable.find?_add hadd] at hfound
    by_cases hsame : name = schema.name
    · rw [hsame]
      exact h.not_reaches_self (SchemaTable.absent_of_add hadd) hnew
    · rw [if_neg hsame] at hfound
      exact h.acyclic name found hfound

end Memory

end Docblock
