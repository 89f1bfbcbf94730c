import Docblock.Proofs.Schema.Recalled
import Docblock.Proofs.Schema.WellFormed

/-!
# Remembered schemas are the schemas read from scratch

A lookup with a faithful memory agrees with a lookup from scratch if it gives the same value, or
the same error, and leaves a faithful memory behind. A value has to be the same also if other
classes are being read at the time, as long as none of them was remembered on the way to it: that
is why a remembered schema serves every later reading. An error depends on the classes being read.
-/

namespace Docblock

open Reflection

def Agrees {α : Type} (registry : Registry) (opened : List String) (m : Memory)
    (remembering : Except AnnotationError α × Memory) (scratch : Lookup α) : Prop :=
  match remembering.1 with
  | .ok a => remembering.2.Lacks opened → ∀ n, n.Knows registry →
      ∃ o, scratch.result n = (.ok a, o) ∧ o.Knows registry
  | .error e => m.reflecting = opened → ∀ n, n.Knows registry → (scratch.result n).1 = .error e

/-- From a faithful memory the lookups agree, and the memory stays faithful and grows. The names
`ignored` are those that settings still open would be settled with. -/
def Transparent {α : Type} (registry : Registry) (names ignored : List String) (depth : Nat)
    (opened : List String) (x y : Lookup α) : Prop :=
  ∀ m, m.Faithful registry names → (m.docSettings? = none → ignored = names) →
    registry.unopened m.reflecting ≤ depth →
    (x.result m).2.Faithful registry names ∧ m.Extends (x.result m).2 ∧
      Agrees registry opened m (x.result m) y

variable {registry : Registry} {names ignored : List String} {depth : Nat} {opened : List String}

namespace Transparent

variable {α β : Type}

theorem of_pure (a : α) : Transparent registry names ignored depth opened (pure a) (pure a) := by
  intro m hm _ _
  refine ⟨hm, Memory.Extends.refl m, ?_⟩
  intro _ n hn
  exact ⟨n, rfl, hn⟩

theorem of_throw (e : AnnotationError) :
    Transparent registry names ignored depth opened (throw e : Lookup α) (throw e) := by
  intro m hm _ _
  refine ⟨hm, Memory.Extends.refl m, ?_⟩
  intro _ n _
  rfl

theorem bind {x y : Lookup α} {f g : α → Lookup β}
    (hx : Transparent registry names ignored depth opened x y)
    (hf : ∀ a, x.Returns a → Transparent registry names ignored depth opened (f a) (g a)) :
    Transparent registry names ignored depth opened (x >>= f) (y >>= g) := by
  intro m hm hsettles hdepth
  obtain ⟨hmid, hgrown, hagrees⟩ := hx m hm hsettles hdepth
  cases hrun : x.result m with
  | mk outcome mid =>
    rw [hrun] at hmid hgrown hagrees
    cases outcome with
    | error e =>
      rw [Lookup.result_bind_error hrun]
      refine ⟨hmid, hgrown, ?_⟩
      intro hopened n hn
      have herror := hagrees hopened n hn
      rw [Lookup.result_bind]
      cases hscratch : y.result n with
      | mk outcome o =>
        rw [hscratch] at herror
        obtain rfl : outcome = .error e := herror
        rfl
    | ok a =>
      rw [Lookup.result_bind_ok hrun]
      have hmiddepth : registry.unopened mid.reflecting ≤ depth := by
        rw [hgrown.reflecting]
        exact hdepth
      have hmidsettles : mid.docSettings? = none → ignored = names := fun hopen =>
        hsettles (hgrown.unsettled hopen)
      obtain ⟨hend, hlast, hrest⟩ := hf a ⟨m, mid, hrun⟩ mid hmid hmidsettles hmiddepth
      refine ⟨hend, hgrown.trans hlast, ?_⟩
      cases hout : (f a).result mid with
      | mk outcome last =>
        rw [hout] at hrest hlast
        cases outcome with
        | ok b =>
          intro hlacks n hn
          obtain ⟨o, ho, hknows⟩ := hagrees (hlacks.of_extends hlast) n hn
          rw [Lookup.result_bind_ok ho]
          exact hrest hlacks o hknows
        | error e =>
          intro hopened n hn
          have hlacks : mid.Lacks opened := by
            rw [← hopened, ← hgrown.reflecting]
            exact hmid.reflecting
          obtain ⟨o, ho, hknows⟩ := hagrees hlacks n hn
          rw [Lookup.result_bind_ok ho]
          exact hrest (hgrown.reflecting.trans hopened) o hknows

theorem of_exists (name : String) : Transparent registry names ignored depth opened
    (liftM (classExists registry name) : Lookup Bool) (liftM (classExists registry name)) := by
  intro m hm _ _
  have hscratch (n : Memory) (hn : n.Knows registry) := result_classExists hn name
  rw [Lookup.result_recall]
  cases run_classExists hm.knows name with
  | inl h =>
    rw [h]
    exact ⟨hm, Memory.Extends.refl m, fun _ => hscratch⟩
  | inr h =>
    rw [h]
    exact ⟨hm.learn name, ⟨fun _ _ h => h, fun _ h => h, rfl⟩, fun _ => hscratch⟩

end Transparent

def transparency (registry : Registry) (names ignored : List String) (depth : Nat)
    (opened : List String) : LookupRelation registry where
  Related := Transparent registry names ignored depth opened
  related_pure := .of_pure
  related_throw := .of_throw
  related_bind := .bind
  related_exists := .of_exists

def scratchSchema (registry : Registry) (names opened : List String) (c : ClassDeclaration) :
    Lookup AnnotationSchema :=
  schemaOfClass (readerFrom registry (.forDocs names)
    (schemaFromScratch registry (.forDocs names) opened)) c

/-- Building schemas agrees with reading them from scratch while fewer than `bound` registered
classes are not being read. -/
def BuildsAlike (registry : Registry) (names ignored : List String) (bound : Nat)
    (build : ClassDeclaration → Lookup AnnotationSchema) : Prop :=
  ∀ c m, m.Faithful registry names → (m.docSettings? = none → ignored = names) →
    registry.unopened m.reflecting < bound →
    ((build c).result m).2.Faithful registry names ∧ m.Extends ((build c).result m).2 ∧
      ((build c).result m).2.docSettings? ≠ none ∧
      (∀ schema, ((build c).result m).1 = .ok schema → schema.name = c.name) ∧
      ∀ opened, Agrees registry opened m ((build c).result m) (scratchSchema registry names opened c)

theorem agrees_ofExcept {α : Type} {m n : Memory} {a : α} {answer : Except AnnotationError α}
    (h : n.Lacks opened → answer = .ok a) :
    Agrees registry opened m (.ok a, n) (.ofExcept answer) := by
  intro hlacks o ho
  rw [h hlacks]
  exact ⟨o, rfl, ho⟩

theorem scratch_of_agrees {c : ClassDeclaration} {m n : Memory} {schema : AnnotationSchema}
    (h : Agrees registry opened m (.ok schema, n) (scratchSchema registry names opened c))
    (hlacks : n.Lacks opened) :
    ((scratchSchema registry names opened c).result .initial).1 = .ok schema := by
  obtain ⟨o, ho, -⟩ := h hlacks .initial (Memory.knows_initial registry)
  rw [ho]

section Recalled

variable {build : ClassDeclaration → Lookup AnnotationSchema} {bound : Nat} {name : String}
  {m : Memory} {c : ClassDeclaration}

theorem schemaFromScratch_eq (hstandard : SchemaTable.standard.find? name = none)
    (hname : ClassName.bare name = name) (hc : registry.describe? name = some c)
    (hmarked : Text.occursIn marker c.doc = true) (hopen : name ∉ opened) :
    schemaFromScratch registry (.forDocs names) opened name =
      ((scratchSchema registry names (name :: opened) c).result .initial).1.map some := by
  have hcname := Registry.name_eq_of_describe? hname hc
  rw [schemaFromScratch_marked hstandard hc hmarked (by rw [hcname]; exact hopen), hcname]
  rfl

/-- A schema that agrees with the one from scratch can be remembered. -/
theorem faithful_remembered (hstandard : SchemaTable.standard.find? name = none)
    (hname : ClassName.bare name = name) (hc : registry.describe? name = some c)
    (hmarked : Text.occursIn marker c.doc = true) (hopen : name ∉ m.reflecting)
    {mid : Memory} (hmid : mid.Faithful registry names) (hleft : m.Extends (mid.leave name))
    (hsettled : mid.docSettings? ≠ none) {schema : AnnotationSchema} (hschema : schema.name = name)
    (habsent : mid.schemas.find? name = none)
    (hagrees : ∀ opened, Agrees registry opened (m.enter name) (.ok schema, mid)
      (scratchSchema registry names opened c))
    {schemas : SchemaTable} (hadd : mid.schemas.add schema = .ok schemas) :
    { mid.leave name with schemas }.Faithful registry names := by
  have hadded := Memory.Extends.add (m := mid.leave name) hadd
  refine (hmid.leave name).add hadd hsettled ?_ ?_
  · rw [hschema, hleft.reflecting]
    exact hopen
  · intro opened hlacks
    have hfound : schemas.find? name = some schema := by
      rw [SchemaTable.find?_add hadd, if_pos hschema.symm]
    have hnew : name ∉ opened := by
      intro hmem
      have hnone : schemas.find? name = none := hlacks name hmem
      rw [hfound] at hnone
      cases hnone
    have hmidlacks : mid.Lacks (name :: opened) := by
      intro other hother
      cases List.mem_cons.1 hother with
      | inl hsame => rw [hsame]; exact habsent
      | inr hbefore => exact (hlacks.of_extends hadded) other hbefore
    rw [hschema, schemaFromScratch_eq hstandard hname hc hmarked hnew,
      scratch_of_agrees (hagrees (name :: opened)) hmidlacks]
    rfl

theorem transparent_reflect (hbuild : BuildsAlike registry names ignored bound build)
    (hname : ClassName.bare name = name) (hm : m.Faithful registry names)
    (hsettles : m.docSettings? = none → ignored = names)
    (hbound : registry.unopened m.reflecting ≤ bound) (hfresh : m.schemas.find? name = none)
    (hc : registry.describe? name = some c) (hmarked : Text.occursIn marker c.doc = true)
    (hopen : name ∉ m.reflecting) :
    (∃ schema n, (reflect registry build name).result m = (.ok (), n) ∧
      n.Faithful registry names ∧ m.Extends n ∧ n.schemas.find? name = some schema) ∨
    ∃ e n, (reflect registry build name).result m = (.error e, n) ∧ n.Faithful registry names ∧
      m.Extends n ∧
      schemaFromScratch registry (.forDocs names) m.reflecting name = .error e := by
  have hstandard := hm.not_standard hfresh
  have hcname := Registry.name_eq_of_describe? hname hc
  have hentered := hm.enter hfresh
  have hless : registry.unopened (m.enter name).reflecting < bound := by
    have hnew : c.name ∉ m.reflecting := by
      rw [hcname]
      exact hopen
    have hlt := Registry.unopened_cons_lt (Registry.mem_of_describe? hc) hnew
    rw [hcname] at hlt
    exact Nat.lt_of_lt_of_le hlt hbound
  obtain ⟨hmid, hgrown, hsettled, hnamed, hagrees⟩ :=
    hbuild c (m.enter name) hentered hsettles hless
  rw [reflect_entered hc hmarked hopen]
  cases hrun : (build c).result (m.enter name) with
  | mk outcome mid =>
    rw [hrun] at hmid hgrown hsettled hnamed hagrees
    have hleft : m.Extends (mid.leave name) :=
      ⟨hgrown.schemas, hgrown.settings, Memory.leave_enter hopen hgrown.reflecting⟩
    cases outcome with
    | error e =>
      right
      refine ⟨e, mid.leave name, rfl, hmid.leave name, hleft, ?_⟩
      have herror := hagrees (name :: m.reflecting) rfl .initial (Memory.knows_initial registry)
      rw [schemaFromScratch_eq hstandard hname hc hmarked hopen, herror]
      rfl
    | ok schema =>
      left
      have hschema : schema.name = name := (hnamed schema rfl).trans hcname
      have habsent : mid.schemas.find? name = none := by
        apply hmid.reflecting name
        rw [hgrown.reflecting]
        exact List.mem_cons_self
      obtain ⟨schemas, hadd⟩ := SchemaTable.add_of_absent (hschema ▸ habsent)
      have hadded := Memory.Extends.add (m := mid.leave name) hadd
      refine ⟨schema, { mid.leave name with schemas }, ?_, ?_, hleft.trans hadded, ?_⟩
      · dsimp only
        rw [hadd]
      · exact faithful_remembered hstandard hname hc hmarked hopen hmid hleft hsettled hschema
          habsent hagrees hadd
      · change schemas.find? name = some schema
        rw [SchemaTable.find?_add hadd, if_pos hschema.symm]

variable (build) in
theorem transparent_plain (hm : m.Faithful registry names) (hfresh : m.schemas.find? name = none)
    (hplain : m.isPlain name = false) (hclass : IsPlain registry name) :
    ((recalled registry build name).result m).2.Faithful registry names ∧
      m.Extends ((recalled registry build name).result m).2 ∧
      ((recalled registry build name).result m).1 = .ok none := by
  rw [recalled_missing hfresh hplain, reflect_plain hclass]
  refine ⟨hm.markPlain hclass, ⟨fun _ _ h => h, fun _ h => h, rfl⟩, ?_⟩
  change Except.ok (m.schemas.find? name) = _
  rw [hfresh]

/-- Recalling a schema agrees with reading it from scratch if building schemas does. -/
theorem transparent_recalled (hbuild : BuildsAlike registry names ignored bound build)
    (hname : ClassName.bare name = name) :
    Transparent registry names ignored bound opened (recalled registry build name)
      (.ofExcept (schemaFromScratch registry (.forDocs names) opened name)) := by
  intro m hm hsettles hbound
  cases hfound : m.schemas.find? name with
  | some schema =>
    rw [recalled_found hfound]
    exact ⟨hm, Memory.Extends.refl m, agrees_ofExcept (hm.read name schema hfound opened)⟩
  | none =>
    have hstandard := hm.not_standard hfound
    cases hplain : m.isPlain name with
    | true =>
      rw [recalled_known hfound hplain]
      refine ⟨hm, Memory.Extends.refl m, agrees_ofExcept fun _ => ?_⟩
      exact schemaFromScratch_plain hstandard (hm.plain name hplain)
    | false =>
      by_cases hclass : IsPlain registry name
      · obtain ⟨hend, hgrown, hresult⟩ := transparent_plain build hm hfound hplain hclass
        refine ⟨hend, hgrown, ?_⟩
        cases hrun : (recalled registry build name).result m with
        | mk outcome n =>
          rw [hrun] at hresult
          obtain rfl : outcome = .ok none := hresult
          exact agrees_ofExcept fun _ => schemaFromScratch_plain hstandard hclass
      · obtain ⟨c, hc, hmarked⟩ : ∃ c, registry.describe? name = some c ∧
            Text.occursIn marker c.doc = true := by
          simpa [IsPlain] using hclass
        by_cases hopen : name ∈ m.reflecting
        · rw [recalled_missing hfound hplain, reflect_circular hc hmarked hopen]
          refine ⟨hm, Memory.Extends.refl m, ?_⟩
          intro hsame n _
          have hcname := Registry.name_eq_of_describe? hname hc
          rw [Lookup.result_ofExcept, schemaFromScratch_opened hstandard hc hmarked
            (by rw [hcname, ← hsame]; exact hopen), hcname]
        · rw [recalled_missing hfound hplain]
          obtain ⟨schema, n, hrun, hend, hgrown, hschema⟩ | ⟨e, n, hrun, hend, hgrown, herror⟩ :=
            transparent_reflect hbuild hname hm hsettles hbound hfound hc hmarked hopen
          · rw [hrun]
            refine ⟨hend, hgrown, ?_⟩
            dsimp only
            rw [hschema]
            exact agrees_ofExcept (hend.read name schema hschema opened)
          · rw [hrun]
            refine ⟨hend, hgrown, ?_⟩
            intro hsame o _
            rw [Lookup.result_ofExcept, ← hsame]
            exact herror

end Recalled

/-- The settings for doc comments, once fixed, are used for every owner. -/
theorem run_docSettings_some {m : Memory} {owner settings : Settings}
    (h : m.docSettings? = some settings) : (docSettings owner).run m = (settings, m) := by
  simp only [docSettings, StateT.run_bind, StateT.run_get, pure_bind, h]
  rfl

theorem run_docSettings_none {m : Memory} {owner : Settings} (h : m.docSettings? = none) :
    (docSettings owner).run m = (.forDocs owner.ignoredNames,
      { m with docSettings? := some (.forDocs owner.ignoredNames) }) := by
  simp only [docSettings, StateT.run_bind, StateT.run_get, pure_bind, h]
  rfl

theorem settle {m : Memory} {owner : Settings} (hm : m.Faithful registry names)
    (howner : m.docSettings? = none → owner.ignoredNames = names) :
    ∃ n, (docSettings owner).run m = (.forDocs names, n) ∧ n.Faithful registry names ∧
      m.Extends n ∧ n.docSettings? ≠ none := by
  cases hsettled : m.docSettings? with
  | some settings =>
    refine ⟨m, ?_, hm, Memory.Extends.refl m, by rw [hsettled]; exact Option.some_ne_none _⟩
    rw [← hm.settled settings hsettled]
    exact run_docSettings_some hsettled
  | none =>
    refine ⟨{ m with docSettings? := some (.forDocs names) }, ?_, hm.settle,
      ⟨fun _ _ h => h, fun settings h => ?_, rfl⟩, Option.some_ne_none _⟩
    · rw [run_docSettings_none hsettled, howner hsettled]
    · rw [hsettled] at h
      cases h

/-- Schemas read with a faithful memory agree with those read from scratch. -/
theorem transparent_schemaOf (depth : Nat) (owner : Settings) (opened : List String)
    {name : String} (hname : ClassName.bare name = name) :
    Transparent registry names owner.ignoredNames depth opened (schemaOf registry depth owner name)
      (.ofExcept (schemaFromScratch registry (.forDocs names) opened name)) := by
  induction depth generalizing owner opened name with
  | zero =>
    refine transparent_recalled (fun c m _ _ hless => ?_) hname
    exact absurd hless (Nat.not_lt_zero _)
  | succ depth ih =>
    refine transparent_recalled (fun c m hm howner hless => ?_) hname
    obtain ⟨start, hsettle, hstart, hgrown, hsettled⟩ := settle hm howner
    have hdepth : registry.unopened start.reflecting ≤ depth := by
      rw [hgrown.reflecting]
      exact Nat.le_of_lt_succ hless
    have hread (opened : List String) (context : String) (target : Target) (doc : String) :
        (transparency registry names names depth opened).Related
          (readDoc ⟨registry, .forDocs names, context, schemaOf registry depth (.forDocs names)⟩
            target doc)
          (readerFrom registry (.forDocs names)
            (schemaFromScratch registry (.forDocs names) opened) context target doc) :=
      LookupRelation.related_readDoc
        ⟨registry, .forDocs names, context, schemaOf registry depth (.forDocs names)⟩ _ _
        (fun inner => ih (.forDocs names) opened (ClassName.bare_bare inner)) target doc
    have hbuilt (opened : List String) :=
      (transparency registry names names depth opened).related_schemaOfClass (hread opened) c
        start hstart (fun _ => rfl) hdepth
    rw [Lookup.result_bind, Lookup.result_recall, hsettle]
    dsimp only
    refine ⟨(hbuilt []).1, hgrown.trans (hbuilt []).2.1, ?_, ?_, ?_⟩
    · obtain ⟨settings, hsettings⟩ := Option.ne_none_iff_exists'.1 hsettled
      rw [(hbuilt []).2.1.settings settings hsettings]
      exact Option.some_ne_none _
    · intro schema hschema
      exact name_of_schemaOfClass (Prod.ext hschema rfl)
    · intro opened
      have hagrees := (hbuilt opened).2.2
      unfold Agrees at hagrees ⊢
      rw [hgrown.reflecting] at hagrees
      exact hagrees

end Docblock
