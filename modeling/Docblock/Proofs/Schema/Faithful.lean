import Docblock.Proofs.Schema.Scratch

/-!
# Faithful memories

A memory is faithful if everything in it could be found out again: which classes exist, which of
them are no annotations, and for every schema that reading it from scratch gives it, whatever
classes without a remembered schema are being read at the time. Reading with a faithful memory
gives what reading from scratch gives, and leaves a faithful memory behind, also after a failure.
-/

namespace Docblock

open Reflection

namespace SchemaTable

variable {t added : SchemaTable} {schema : AnnotationSchema}

theorem add_of_absent (h : t.find? schema.name = none) : ∃ added, t.add schema = .ok added := by
  unfold add
  rw [if_neg (by simp [contains, h])]
  exact ⟨_, rfl⟩

theorem absent_of_add (h : t.add schema = .ok added) : t.find? schema.name = none := by
  unfold add at h
  split at h
  · cases h
  · next habsent => simpa [contains] using habsent

theorem find?_add (h : t.add schema = .ok added) (name : String) :
    added.find? name = if name = schema.name then some schema else t.find? name := by
  unfold add at h
  split at h
  · cases h
  · obtain rfl := Except.ok.inj h
    rfl

end SchemaTable

namespace Memory

/-- Whatever is remembered about the existence of classes is true. -/
def Knows (registry : Registry) (m : Memory) : Prop :=
  ∀ name present, m.known.lookup name = some present → present = registry.exists? name

def Lacks (m : Memory) (opened : List String) : Prop := ∀ name ∈ opened, m.schemas.find? name = none

structure Faithful (registry : Registry) (ignoredNames : List String) (m : Memory) : Prop where
  knows : m.Knows registry
  plain : ∀ name, m.isPlain name = true → IsPlain registry name
  standard : ∀ name schema, SchemaTable.standard.find? name = some schema →
    m.schemas.find? name = some schema
  unsettled : m.docSettings? = none → m.schemas.find? = SchemaTable.standard.find?
  settled : ∀ settings, m.docSettings? = some settings → settings = .forDocs ignoredNames
  read : ∀ name schema, m.schemas.find? name = some schema → ∀ opened, m.Lacks opened →
    schemaFromScratch registry (.forDocs ignoredNames) opened name = .ok (some schema)
  reflecting : m.Lacks m.reflecting

structure Extends (m n : Memory) : Prop where
  schemas : ∀ name schema, m.schemas.find? name = some schema → n.schemas.find? name = some schema
  settings : ∀ settings, m.docSettings? = some settings → n.docSettings? = some settings
  reflecting : n.reflecting = m.reflecting

theorem Extends.refl (m : Memory) : m.Extends m := ⟨fun _ _ h => h, fun _ h => h, rfl⟩

theorem Extends.trans {m n o : Memory} (hmn : m.Extends n) (hno : n.Extends o) : m.Extends o :=
  ⟨fun name schema h => hno.schemas name schema (hmn.schemas name schema h),
    fun settings h => hno.settings settings (hmn.settings settings h),
    hno.reflecting.trans hmn.reflecting⟩

theorem Extends.unsettled {m n : Memory} (h : m.Extends n) (hopen : n.docSettings? = none) :
    m.docSettings? = none := by
  cases hm : m.docSettings? with
  | none => rfl
  | some settings =>
    rw [h.settings settings hm] at hopen
    cases hopen

theorem Lacks.of_extends {m n : Memory} {opened : List String} (h : n.Lacks opened)
    (hmn : m.Extends n) : m.Lacks opened := by
  intro name hname
  cases hm : m.schemas.find? name with
  | none => rfl
  | some schema =>
    have hn := hmn.schemas name schema hm
    rw [h name hname] at hn
    cases hn

variable {registry : Registry} {names : List String} {m : Memory}

theorem knows_initial (registry : Registry) : Memory.initial.Knows registry := by
  intro name present h
  cases h

theorem faithful_initial (registry : Registry) (names : List String) :
    Memory.initial.Faithful registry names where
  knows := knows_initial registry
  plain _ h := by cases h
  standard _ _ h := h
  unsettled _ := rfl
  settled _ h := by cases h
  read _ _ h _ _ := schemaFromScratch_standard h
  reflecting _ h := by cases h

/-- Before the first use the settings for doc comments are still open. -/
theorem Faithful.of_unsettled {other : List String} (h : m.Faithful registry names)
    (hopen : m.docSettings? = none) : m.Faithful registry other where
  knows := h.knows
  plain := h.plain
  standard := h.standard
  unsettled := h.unsettled
  settled settings hsettings := by rw [hopen] at hsettings; cases hsettings
  read name schema hschema opened _ := by
    rw [h.unsettled hopen] at hschema
    exact schemaFromScratch_standard hschema
  reflecting := h.reflecting

theorem Knows.learn (h : m.Knows registry) (name : String) :
    (m.learn name (registry.exists? name)).Knows registry := by
  intro other present hother
  rw [Memory.learn, List.lookup_cons] at hother
  cases hsame : other == name with
  | true =>
    rw [hsame] at hother
    rw [eq_of_beq hsame]
    exact (Option.some.inj hother).symm
  | false =>
    rw [hsame] at hother
    exact h other present hother

theorem Faithful.learn (h : m.Faithful registry names) (name : String) :
    (m.learn name (registry.exists? name)).Faithful registry names where
  knows := h.knows.learn name
  plain := h.plain
  standard := h.standard
  unsettled := h.unsettled
  settled := h.settled
  read := h.read
  reflecting := h.reflecting

theorem Faithful.markPlain (h : m.Faithful registry names) {name : String}
    (hname : IsPlain registry name) : (m.markPlain name).Faithful registry names where
  knows := h.knows
  plain other hother := by
    rw [Memory.isPlain, Memory.markPlain, List.contains_cons, Bool.or_eq_true] at hother
    cases hother with
    | inl hsame => rw [eq_of_beq hsame]; exact hname
    | inr hbefore => exact h.plain other hbefore
  standard := h.standard
  unsettled := h.unsettled
  settled := h.settled
  read := h.read
  reflecting := h.reflecting

theorem Faithful.enter (h : m.Faithful registry names) {name : String}
    (hname : m.schemas.find? name = none) : (m.enter name).Faithful registry names where
  knows := h.knows
  plain := h.plain
  standard := h.standard
  unsettled := h.unsettled
  settled := h.settled
  read := h.read
  reflecting other hother := by
    cases List.mem_cons.1 hother with
    | inl hsame => rw [hsame]; exact hname
    | inr hbefore => exact h.reflecting other hbefore

theorem Faithful.leave (h : m.Faithful registry names) (name : String) :
    (m.leave name).Faithful registry names where
  knows := h.knows
  plain := h.plain
  standard := h.standard
  unsettled := h.unsettled
  settled := h.settled
  read := h.read
  reflecting other hother := h.reflecting other (List.mem_filter.1 hother).1

theorem Faithful.settle (h : m.Faithful registry names) :
    { m with docSettings? := some (.forDocs names) }.Faithful registry names where
  knows := h.knows
  plain := h.plain
  standard := h.standard
  unsettled hnone := by cases hnone
  settled _ hsome := (Option.some.inj hsome).symm
  read := h.read
  reflecting := h.reflecting

theorem leave_enter {name : String} (hname : name ∉ m.reflecting) {n : Memory}
    (h : n.reflecting = (m.enter name).reflecting) : (n.leave name).reflecting = m.reflecting := by
  have hfilter : m.reflecting.filter (fun other => other != name) = m.reflecting := by
    rw [List.filter_eq_self]
    intro other hother
    have hne : other ≠ name := fun hsame => hname (hsame ▸ hother)
    simpa using hne
  rw [Memory.leave, h, Memory.enter]
  simpa using hfilter

theorem Extends.add {schema : AnnotationSchema} {schemas : SchemaTable}
    (hadd : m.schemas.add schema = .ok schemas) : m.Extends { m with schemas } where
  schemas name found hfound := by
    have hne : name ≠ schema.name := by
      intro hsame
      rw [hsame, SchemaTable.absent_of_add hadd] at hfound
      cases hfound
    change schemas.find? name = some found
    rw [SchemaTable.find?_add hadd, if_neg hne]
    exact hfound
  settings _ h := h
  reflecting := rfl

/-- A class without a remembered schema is no standard class. -/
theorem Faithful.not_standard (h : m.Faithful registry names) {name : String}
    (hfresh : m.schemas.find? name = none) : SchemaTable.standard.find? name = none := by
  cases hfound : SchemaTable.standard.find? name with
  | none => rfl
  | some schema =>
    have hpresent := h.standard name schema hfound
    rw [hfresh] at hpresent
    cases hpresent

theorem Faithful.add (h : m.Faithful registry names) {schema : AnnotationSchema}
    {schemas : SchemaTable} (hadd : m.schemas.add schema = .ok schemas)
    (hsettled : m.docSettings? ≠ none) (hreflecting : schema.name ∉ m.reflecting)
    (hread : ∀ opened, { m with schemas }.Lacks opened →
      schemaFromScratch registry (.forDocs names) opened schema.name = .ok (some schema)) :
    { m with schemas }.Faithful registry names where
  knows := h.knows
  plain := h.plain
  standard name found hfound := (Extends.add hadd).schemas name found (h.standard name found hfound)
  unsettled hunsettled := absurd hunsettled hsettled
  settled := h.settled
  read name found hfound opened hlacks := by
    dsimp only at hfound
    rw [SchemaTable.find?_add hadd] at hfound
    by_cases hsame : name = schema.name
    · rw [if_pos hsame] at hfound
      rw [← Option.some.inj hfound, hsame]
      exact hread opened hlacks
    · rw [if_neg hsame] at hfound
      exact h.read name found hfound opened (hlacks.of_extends (Extends.add hadd))
  reflecting name hname := by
    have hne : name ≠ schema.name := fun hsame => hreflecting (hsame ▸ hname)
    dsimp only
    rw [SchemaTable.find?_add hadd, if_neg hne]
    exact h.reflecting name hname

end Memory

/-- Looking for a class gives what the registry knows and learns at most that. -/
theorem run_classExists {registry : Registry} {m : Memory} (h : m.Knows registry) (name : String) :
    (classExists registry name).run m = (registry.exists? name, m) ∨
      (classExists registry name).run m =
        (registry.exists? name, m.learn name (registry.exists? name)) := by
  cases hfound : m.known.lookup name with
  | some present =>
    left
    rw [← h name present hfound]
    simp only [classExists, StateT.run_bind, StateT.run_get, pure_bind, hfound]
    rfl
  | none =>
    right
    simp only [classExists, StateT.run_bind, StateT.run_get, pure_bind, hfound]
    rfl

theorem result_classExists {registry : Registry} {m : Memory} (h : m.Knows registry)
    (name : String) : ∃ n, (liftM (classExists registry name) : Lookup Bool).result m =
      (.ok (registry.exists? name), n) ∧ n.Knows registry := by
  rw [Lookup.result_recall]
  cases run_classExists h name with
  | inl hrun => exact ⟨m, by rw [hrun], h⟩
  | inr hrun => exact ⟨_, by rw [hrun], h.learn name⟩

end Docblock
