import Docblock.Proofs.Schema.Circularity
import Docblock.Proofs.Schema.Nesting
import Mathlib.Data.List.Basic

/-!
# Tidy memories

A memory is tidy if everything in it belongs to a class of the registry: besides the standard
schemas it has schemas of marked classes, each under the name of its class, and it remembers only
unmarked classes to be no annotations. Looking for classes, entering and leaving them, and
remembering what was read of them keep a memory tidy, also when the reading fails. No schema comes
twice or with two default properties.
-/

namespace Docblock

open Reflection

structure AnnotationSchema.IsOf (s : AnnotationSchema) (c : ClassDeclaration) : Prop where
  name : s.name = c.name
  wellFormed : s.WellFormed
  usesConstructor : s.usesConstructor = c.hasConstructor

theorem AnnotationSchema.usesConstructor_of_make {name : String} {target : Target}
    {usesConstructor : Bool} {properties : List PropertySchema} {schema : AnnotationSchema}
    (h : make name target usesConstructor properties = .ok schema) :
    schema.usesConstructor = usesConstructor := by
  unfold make at h
  dsimp only at h
  split at h
  · cases h
  · rw [← Except.ok.inj h]

theorem Reflection.isOf_of_schemaOfClass {read : DocReader} {c : ClassDeclaration} {m n : Memory}
    {schema : AnnotationSchema} (h : (schemaOfClass read c).result m = (.ok schema, n)) :
    schema.IsOf c := by
  obtain ⟨target, properties, hdistinct, hmake⟩ := make_of_schemaOfClass h
  exact ⟨AnnotationSchema.name_of_make hmake,
    AnnotationSchema.wellFormed_of_make hmake hdistinct,
    AnnotationSchema.usesConstructor_of_make hmake⟩

namespace SchemaTable

def Listed (t : SchemaTable) : Prop := ∀ name, name ∈ t.names ↔ ∃ s, t.find? name = some s

variable {t added : SchemaTable} {schema : AnnotationSchema}

theorem names_add (h : t.add schema = .ok added) : added.names = t.names ++ [schema.name] := by
  unfold add at h
  split at h
  · cases h
  · rw [← Except.ok.inj h]

theorem Listed.add (h : t.Listed) (hadd : t.add schema = .ok added) : added.Listed := by
  intro name
  rw [names_add hadd, find?_add hadd, List.mem_append, List.mem_singleton, h name]
  by_cases hsame : name = schema.name
  · simp [hsame]
  · simp [hsame]

theorem Listed.addAll (h : t.Listed) (schemas : List AnnotationSchema) :
    (t.addAll schemas).1.Listed := by
  induction schemas generalizing t with
  | nil => exact h
  | cons schema rest ih =>
    unfold SchemaTable.addAll
    cases hadd : t.add schema with
    | ok added => exact ih (h.add hadd)
    | error e => exact h

theorem listed_standard : standard.Listed := by
  have hempty : empty.Listed := by
    intro name
    simp [empty]
  exact hempty.addAll standardSchemas

end SchemaTable

namespace Memory

/-- What the memory knows of classes is what the registry says of them. No class is remembered both
with a schema and as no annotation. -/
structure Tidy (registry : Registry) (m : Memory) : Prop where
  knows : m.Knows registry
  listed : m.schemas.Listed
  standard : ∀ name schema, SchemaTable.standard.find? name = some schema →
    m.schemas.find? name = some schema
  read : ∀ name schema, m.schemas.find? name = some schema →
    SchemaTable.standard.find? name = none → ∃ c, registry.describe? name = some c ∧
      c.name = name ∧ Text.occursIn marker c.doc = true ∧ schema.IsOf c
  plain : ∀ name ∈ m.plain, ∃ c, registry.describe? name = some c ∧ c.name = name ∧
    Text.occursIn marker c.doc = false
  apart : m.schemas.names.Disjoint m.plain

variable {registry : Registry} {m n : Memory} {name : String} {c : ClassDeclaration}

theorem tidy_initial (registry : Registry) : Memory.initial.Tidy registry where
  knows := knows_initial registry
  listed := SchemaTable.listed_standard
  standard _ _ h := h
  read name schema h hstandard := by
    have hfound : SchemaTable.standard.find? name = some schema := h
    rw [hstandard] at hfound
    cases hfound
  plain _ h := by cases h
  apart := List.disjoint_nil_right _

/-- Which classes are being read does not matter, nor do the settings for their doc comments. -/
theorem Tidy.of_eq (h : m.Tidy registry) (hknown : n.known = m.known)
    (hschemas : n.schemas = m.schemas) (hplain : n.plain = m.plain) : n.Tidy registry where
  knows := by
    unfold Knows
    rw [hknown]
    exact h.knows
  listed := hschemas ▸ h.listed
  standard := hschemas ▸ h.standard
  read := hschemas ▸ h.read
  plain := hplain ▸ h.plain
  apart := hschemas ▸ hplain ▸ h.apart

theorem Tidy.learn (h : m.Tidy registry) (name : String) :
    (m.learn name (registry.exists? name)).Tidy registry where
  knows := h.knows.learn name
  listed := h.listed
  standard := h.standard
  read := h.read
  plain := h.plain
  apart := h.apart

theorem Tidy.markPlain (h : m.Tidy registry) (habsent : m.schemas.find? name = none)
    (hc : registry.describe? name = some c) (hname : c.name = name)
    (hunmarked : Text.occursIn marker c.doc = false) : (m.markPlain name).Tidy registry where
  knows := h.knows
  listed := h.listed
  standard := h.standard
  read := h.read
  plain other hother := by
    rcases List.mem_cons.1 hother with rfl | hbefore
    · exact ⟨c, hc, hname, hunmarked⟩
    · exact h.plain other hbefore
  apart := by
    refine List.disjoint_cons_right.2 ⟨fun hlisted => ?_, h.apart⟩
    obtain ⟨schema, hschema⟩ := (h.listed name).1 hlisted
    rw [habsent] at hschema
    cases hschema

/-- The schema of a marked class can be remembered, since no marked class is remembered to be no
annotation. -/
theorem Tidy.add (h : m.Tidy registry) {schema : AnnotationSchema} {schemas : SchemaTable}
    (hadd : m.schemas.add schema = .ok schemas) (hc : registry.describe? schema.name = some c)
    (hmarked : Text.occursIn marker c.doc = true) (hof : schema.IsOf c) :
    { m with schemas }.Tidy registry where
  knows := h.knows
  listed := h.listed.add hadd
  standard name found hfound := (Extends.add hadd).schemas name found (h.standard name found hfound)
  read name found hfound hstandard := by
    dsimp only at hfound
    rw [SchemaTable.find?_add hadd] at hfound
    by_cases hsame : name = schema.name
    · rw [if_pos hsame] at hfound
      obtain rfl := Option.some.inj hfound
      rw [hsame]
      exact ⟨c, hc, hof.name.symm, hmarked, hof⟩
    · rw [if_neg hsame] at hfound
      exact h.read name found hfound hstandard
  plain := h.plain
  apart := by
    dsimp only
    rw [SchemaTable.names_add hadd]
    refine List.disjoint_append_left.2 ⟨h.apart, List.singleton_disjoint.2 fun hplain => ?_⟩
    obtain ⟨d, hd, -, hunmarked⟩ := h.plain schema.name hplain
    obtain rfl := Option.some.inj (hc.symm.trans hd)
    rw [hmarked] at hunmarked
    cases hunmarked

end Memory

section Keeping

variable {registry : Registry} {α β : Type} {name : String}

def KeepsTidy (registry : Registry) (x : Lookup α) : Prop :=
  ∀ m, m.Tidy registry → (x.result m).2.Tidy registry

theorem KeepsTidy.bind {x : Lookup α} {f : α → Lookup β} (hx : KeepsTidy registry x)
    (hf : ∀ a, x.Returns a → KeepsTidy registry (f a)) : KeepsTidy registry (x >>= f) := by
  intro m hm
  have hn := hx m hm
  rw [Lookup.result_bind]
  cases hrun : x.result m with
  | mk outcome n =>
    rw [hrun] at hn
    cases outcome with
    | ok a => exact hf a ⟨m, n, hrun⟩ n hn
    | error e => exact hn

def tidiness (registry : Registry) : LookupRelation registry where
  Related x _ := KeepsTidy registry x
  related_pure _ _ hm := hm
  related_throw _ _ hm := hm
  related_bind hx hf := hx.bind hf
  related_exists name m hm := by
    rw [Lookup.result_recall]
    rcases run_classExists hm.knows name with hrun | hrun
    · rw [hrun]
      exact hm
    · rw [hrun]
      exact hm.learn name

/-- Reading a class that exists keeps memories tidy if its builder does and builds schemas of the
class. -/
theorem keepsTidy_recalled {build : ClassDeclaration → Lookup AnnotationSchema}
    (hbuild : ∀ c, KeepsTidy registry (build c))
    (hbuilt : ∀ c schema, (build c).Returns schema → schema.IsOf c)
    (hname : ClassName.bare name = name) {c : ClassDeclaration}
    (hc : registry.describe? name = some c) :
    KeepsTidy registry (recalled registry build name) := by
  have hcname := Registry.name_eq_of_describe? hname hc
  intro m hm
  cases hfound : m.schemas.find? name with
  | some schema =>
    rw [recalled_found hfound]
    exact hm
  | none =>
    cases hplain : m.isPlain name with
    | true =>
      rw [recalled_known hfound hplain]
      exact hm
    | false =>
      have hreflect : ((reflect registry build name).result m).2.Tidy registry := by
        cases hmarked : Text.occursIn marker c.doc with
        | false =>
          have hclass : IsPlain registry name := by
            intro d hd
            obtain rfl := Option.some.inj (hc.symm.trans hd)
            exact hmarked
          rw [reflect_plain hclass]
          exact hm.markPlain hfound hc hcname hmarked
        | true =>
          by_cases hopen : name ∈ m.reflecting
          · rw [reflect_circular hc hmarked hopen]
            exact hm
          · rw [reflect_entered hc hmarked hopen]
            have hmid := hbuild c (m.enter name) (hm.of_eq rfl rfl rfl)
            cases hrun : (build c).result (m.enter name) with
            | mk outcome mid =>
              rw [hrun] at hmid
              have hleft : (mid.leave name).Tidy registry := hmid.of_eq rfl rfl rfl
              cases outcome with
              | error e => exact hleft
              | ok schema =>
                have hof := hbuilt c schema ⟨_, _, hrun⟩
                dsimp only
                cases hadd : mid.schemas.add schema with
                | error e => exact hleft
                | ok schemas =>
                  have hdescribed : registry.describe? schema.name = some c := by
                    rw [hof.name, hcname]
                    exact hc
                  exact hleft.add hadd hdescribed hmarked hof
      rw [recalled_missing hfound hplain]
      cases hrun : (reflect registry build name).result m with
      | mk outcome n =>
        rw [hrun] at hreflect
        cases outcome <;> exact hreflect

theorem keepsTidy_docSettings (owner : Settings) :
    KeepsTidy registry (liftM (docSettings owner) : Lookup Settings) := by
  intro m hm
  rw [Lookup.result_recall]
  cases hsettled : m.docSettings? with
  | some settings =>
    rw [run_docSettings_some hsettled]
    exact hm
  | none =>
    rw [run_docSettings_none hsettled]
    exact hm.of_eq rfl rfl rfl

section Scope

variable (scope : Scope)

/-- Only classes that exist are read, so that asking keeps memories tidy if such a reading does. -/
theorem keepsTidy_askSchema (h : ∀ c, scope.registry.describe? name = some c →
    KeepsTidy scope.registry (scope.schemaOf name)) :
    KeepsTidy scope.registry (scope.askSchema name) := by
  intro m hm
  have hn := (tidiness scope.registry).related_exists name m hm
  unfold Scope.askSchema
  obtain ⟨n, hrun, -⟩ := result_classExists hm.knows name
  rw [Lookup.result_bind_ok hrun]
  rw [hrun] at hn
  cases hpresent : scope.registry.exists? name with
  | false => exact hn
  | true =>
    obtain ⟨c, hc⟩ := Option.isSome_iff_exists.1 hpresent
    exact (h c hc).bind (fun found _ => (tidiness scope.registry).related_pure (some found)) n hn

variable (h : ∀ name c, scope.registry.describe? (ClassName.bare name) = some c →
  KeepsTidy scope.registry (scope.schemaOf (ClassName.bare name)))

include h

theorem keepsTidy_readDoc (target : Target) (input : String) :
    KeepsTidy scope.registry (readDoc scope target input) :=
  LookupRelation.related_readDoc_asking scope scope.schemaOf (tidiness scope.registry).twin_self
    (fun name => keepsTidy_askSchema scope (h name)) target input

end Scope

theorem keepsTidy_schemaOfClass {read : DocReader}
    (h : ∀ context target doc, KeepsTidy registry (read context target doc))
    (c : ClassDeclaration) : KeepsTidy registry (schemaOfClass read c) := by
  have hsame : (tidiness registry).Related (schemaOfClass read c) (schemaOfClass read c) :=
    (tidiness registry).related_schemaOfClass h c
  exact hsame

theorem isOf_of_builder {depth : Nat} {owner : Settings} {c : ClassDeclaration}
    {schema : AnnotationSchema} (h : (builder registry depth owner c).Returns schema) :
    schema.IsOf c := by
  obtain ⟨m, n, hrun⟩ := h
  cases depth with
  | zero => cases hrun
  | succ depth =>
    obtain ⟨settings, mid, -, hrest⟩ := Lookup.bind_eq_ok hrun
    exact isOf_of_schemaOfClass hrest

theorem keepsTidy_schemaOf (depth : Nat) (owner : Settings) (hname : ClassName.bare name = name)
    {c : ClassDeclaration} (hc : registry.describe? name = some c) :
    KeepsTidy registry (schemaOf registry depth owner name) := by
  induction depth generalizing owner name c with
  | zero =>
    rw [schemaOf_eq_recalled]
    exact keepsTidy_recalled (fun c m hm => hm) (fun _ _ => isOf_of_builder) hname hc
  | succ depth ih =>
    rw [schemaOf_eq_recalled]
    refine keepsTidy_recalled (fun c => ?_) (fun _ _ => isOf_of_builder) hname hc
    refine (keepsTidy_docSettings owner).bind fun settings _ => ?_
    refine keepsTidy_schemaOfClass (fun context target doc => ?_) c
    exact keepsTidy_readDoc ⟨registry, settings, context, schemaOf registry depth settings⟩
      (fun inner c hc => ih settings (ClassName.bare_bare inner) hc) target doc

def IsAnnotation (registry : Registry) (name : String) : Prop :=
  (∃ schema, SchemaTable.standard.find? name = some schema) ∨
    ∃ c, registry.describe? name = some c ∧ Text.occursIn marker c.doc = true

/-- A class with annotations is never taken for one without. -/
theorem schemaOf_ne_none {m : Memory} (hm : m.Tidy registry) (depth : Nat) (owner : Settings)
    (hname : ClassName.bare name = name) (hclass : IsAnnotation registry name) :
    ((schemaOf registry depth owner name).result m).1 ≠ .ok none := by
  rw [schemaOf_eq_recalled]
  cases hfound : m.schemas.find? name with
  | some schema =>
    rw [recalled_found hfound]
    rintro ⟨⟩
  | none =>
    obtain ⟨c, hc, hmarked⟩ : ∃ c, registry.describe? name = some c ∧
        Text.occursIn marker c.doc = true := by
      refine hclass.resolve_left fun hstandard => ?_
      obtain ⟨schema, hschema⟩ := hstandard
      rw [hm.standard name schema hschema] at hfound
      cases hfound
    have hplain : m.isPlain name = false := by
      rw [← Bool.not_eq_true]
      intro hplain
      obtain ⟨d, hd, -, hunmarked⟩ := hm.plain name (by simpa [Memory.isPlain] using hplain)
      obtain rfl := Option.some.inj (hc.symm.trans hd)
      rw [hmarked] at hunmarked
      cases hunmarked
    rw [recalled_missing hfound hplain]
    by_cases hopen : name ∈ m.reflecting
    · rw [reflect_circular hc hmarked hopen]
      rintro ⟨⟩
    · rw [reflect_entered hc hmarked hopen]
      cases hrun : (builder registry depth owner c).result (m.enter name) with
      | mk outcome mid =>
        cases outcome with
        | error e => rintro ⟨⟩
        | ok schema =>
          have hschema : schema.name = name :=
            (isOf_of_builder ⟨_, _, hrun⟩).name.trans (Registry.name_eq_of_describe? hname hc)
          dsimp only
          cases hadd : mid.schemas.add schema with
          | error e => rintro ⟨⟩
          | ok schemas =>
            dsimp only
            rw [SchemaTable.find?_add hadd, if_pos hschema.symm]
            rintro ⟨⟩

theorem askSchema_ne_none {m : Memory} {settings : Settings} {context : String} {depth : Nat}
    (hm : m.Tidy registry) (hname : ClassName.bare name = name)
    (hclass : IsAnnotation registry name) :
    ((Scope.askSchema ⟨registry, settings, context, schemaOf registry depth settings⟩ name).result
      m).1 ≠ .ok (some none) := by
  have hn := (tidiness registry).related_exists name m hm
  obtain ⟨n, hrun, -⟩ := result_classExists hm.knows name
  rw [hrun] at hn
  unfold Scope.askSchema
  rw [Lookup.result_bind_ok hrun]
  cases registry.exists? name with
  | false => nofun
  | true =>
    have hschema := schemaOf_ne_none hn depth settings hname hclass
    dsimp only
    rw [if_pos rfl, Lookup.result_bind]
    cases hasked : (schemaOf registry depth settings name).result n with
    | mk outcome o =>
      rw [hasked] at hschema
      cases outcome with
      | error e => nofun
      | ok found =>
        cases found with
        | none => exact absurd rfl hschema
        | some schema => nofun

end Keeping

/-- From scratch no schema is refused for its properties. -/
theorem schemaFromScratch_ne_schema (registry : Registry) (settings : Settings)
    (opened : List String) (name : String) (e : SchemaError) :
    schemaFromScratch registry settings opened name ≠ .error (.schema e) := by
  intro h
  induction opened, name using scratch_induction registry with
  | standard opened name schema hstandard =>
    rw [schemaFromScratch_standard hstandard] at h
    cases h
  | plain opened name hstandard hplain =>
    rw [schemaFromScratch_plain hstandard hplain] at h
    cases h
  | circular opened name c hstandard hc hmarked hopen =>
    rw [schemaFromScratch_opened hstandard hc hmarked hopen] at h
    cases h
  | read opened name c hstandard hc hmarked hopen ih =>
    rw [schemaFromScratch_marked hstandard hc hmarked hopen] at h
    have hcovers := covers_schemaOfClass (covers_readerFrom settings (c.name :: opened)) c
      .initial (Memory.knows_initial registry)
    cases hrun : (schemaOfClass (readerFrom registry settings
      (schemaFromScratch registry settings (c.name :: opened))) c).result .initial with
    | mk outcome n =>
      rw [hrun] at h hcovers
      cases outcome with
      | ok schema => cases h
      | error f =>
        obtain rfl := Except.error.inj h
        rcases hcovers with hown | ⟨d, -, other, -, -, hother⟩
        · exact absurd hown id
        · exact ih other hother

end Docblock
