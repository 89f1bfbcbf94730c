import Docblock.Proofs.Lookup.Readers

/-!
# Schemas read from scratch

This is the reading of schemas that remembers nothing. It is told which classes are being read and
refuses those; every other class it needs is read anew. The classes that are not being read become
fewer with every nested reading, so it ends without any bound on the depth.
-/

namespace Docblock

def Settings.forDocs (ignoredNames : List String) : Settings :=
  { imports := StandardName.imports, ignoredNames, ignoreNotImported := true }

namespace Registry

theorem mem_of_describe? {registry : Registry} {name : String} {c : ClassDeclaration}
    (h : registry.describe? name = some c) : c ∈ registry.classes := List.mem_of_find?_eq_some h

theorem name_of_describe? {registry : Registry} {name : String} {c : ClassDeclaration}
    (h : registry.describe? name = some c) : c.name = ClassName.registered name :=
  name_of_lookup? h

def unopened (registry : Registry) (opened : List String) : Nat :=
  registry.classes.countP fun c => !opened.contains c.name

theorem unopened_cons_lt {registry : Registry} {opened : List String} {c : ClassDeclaration}
    (hc : c ∈ registry.classes) (hopen : c.name ∉ opened) :
    registry.unopened (c.name :: opened) < registry.unopened opened := by
  have hle (classes : List ClassDeclaration) :
      classes.countP (fun d => !(c.name :: opened).contains d.name) ≤
        classes.countP (fun d => !opened.contains d.name) := by
    apply List.countP_mono_left
    intro d _ hd
    simp only [List.contains_cons, Bool.not_or, Bool.and_eq_true] at hd
    exact hd.2
  have hold : (!opened.contains c.name) = true := by simpa using hopen
  obtain ⟨before, after, hsplit⟩ := List.append_of_mem hc
  unfold unopened
  rw [hsplit, List.countP_append, List.countP_append, List.countP_cons_of_neg (by simp)]
  have hafter : (c :: after).countP (fun d => !opened.contains d.name) =
      after.countP (fun d => !opened.contains d.name) + 1 := List.countP_cons_of_pos hold
  have hb := hle before
  have ha := hle after
  omega

theorem unopened_le (registry : Registry) (opened : List String) :
    registry.unopened opened ≤ registry.classes.length := List.countP_le_length

end Registry

namespace Reflection

def readerFrom (registry : Registry) (settings : Settings)
    (source : String → Except AnnotationError (Option AnnotationSchema)) : DocReader :=
  fun context target doc =>
    readDoc ⟨registry, settings, context, fun name => .ofExcept (source name)⟩ target doc

/-- The schema of a class, read from scratch while the classes `opened` are being read. -/
def schemaFromScratch (registry : Registry) (settings : Settings) (opened : List String)
    (name : String) : Except AnnotationError (Option AnnotationSchema) :=
  match SchemaTable.standard.find? name with
  | some schema => .ok (some schema)
  | none =>
    match _hc : registry.describe? name with
    | none => .ok none
    | some c =>
      if !Text.occursIn marker c.doc then .ok none
      else if _hopen : c.name ∈ opened then .error (.circular c.name)
      else
        let read := readerFrom registry settings fun inner =>
          schemaFromScratch registry settings (c.name :: opened) inner
        ((schemaOfClass read c).result .initial).1.map some
  termination_by registry.unopened opened
  decreasing_by exact Registry.unopened_cons_lt (Registry.mem_of_describe? _hc) _hopen

variable {registry : Registry} {settings : Settings} {opened : List String} {name : String}

theorem schemaFromScratch_standard {schema : AnnotationSchema}
    (h : SchemaTable.standard.find? name = some schema) :
    schemaFromScratch registry settings opened name = .ok (some schema) := by
  rw [schemaFromScratch, h]

def IsPlain (registry : Registry) (name : String) : Prop :=
  ∀ c, registry.describe? name = some c → Text.occursIn marker c.doc = false

theorem schemaFromScratch_plain (hstandard : SchemaTable.standard.find? name = none)
    (h : IsPlain registry name) :
    schemaFromScratch registry settings opened name = .ok none := by
  rw [schemaFromScratch, hstandard]
  dsimp only
  split
  · rfl
  · next c hc => simp [h c hc]

theorem schemaFromScratch_opened {c : ClassDeclaration}
    (hstandard : SchemaTable.standard.find? name = none) (hc : registry.describe? name = some c)
    (hmarked : Text.occursIn marker c.doc = true) (hopen : c.name ∈ opened) :
    schemaFromScratch registry settings opened name = .error (.circular c.name) := by
  rw [schemaFromScratch, hstandard]
  dsimp only
  split
  · next hnone => simp [hc] at hnone
  · next d hd =>
    obtain rfl : c = d := Option.some.inj (hc.symm.trans hd)
    simp [hmarked, hopen]

theorem schemaFromScratch_marked {c : ClassDeclaration}
    (hstandard : SchemaTable.standard.find? name = none) (hc : registry.describe? name = some c)
    (hmarked : Text.occursIn marker c.doc = true) (hopen : c.name ∉ opened) :
    schemaFromScratch registry settings opened name =
      ((schemaOfClass (readerFrom registry settings
        (schemaFromScratch registry settings (c.name :: opened))) c).result .initial).1.map some := by
  rw [schemaFromScratch, hstandard]
  dsimp only
  split
  · next hnone => simp [hc] at hnone
  · next d hd =>
    obtain rfl : c = d := Option.some.inj (hc.symm.trans hd)
    simp [hmarked, hopen]

/-- A class is a standard class, no annotation, being read, or read now. Reading it from scratch
leads to readings during which it is being read as well. -/
@[elab_as_elim]
theorem scratch_induction (registry : Registry) {motive : List String → String → Prop}
    (standard : ∀ opened name schema, SchemaTable.standard.find? name = some schema →
      motive opened name)
    (plain : ∀ opened name, SchemaTable.standard.find? name = none → IsPlain registry name →
      motive opened name)
    (circular : ∀ opened name c, SchemaTable.standard.find? name = none →
      registry.describe? name = some c → Text.occursIn marker c.doc = true → c.name ∈ opened →
      motive opened name)
    (read : ∀ opened name c, SchemaTable.standard.find? name = none →
      registry.describe? name = some c → Text.occursIn marker c.doc = true → c.name ∉ opened →
      (∀ inner, motive (c.name :: opened) inner) → motive opened name)
    (opened : List String) (name : String) : motive opened name := by
  induction opened, name using schemaFromScratch.induct registry {} with
  | case1 opened name schema hstandard => exact standard opened name schema hstandard
  | case2 opened name hstandard hnone =>
    refine plain opened name hstandard fun c hc => ?_
    rw [hnone] at hc
    cases hc
  | case3 opened name hstandard c hc hunmarked =>
    refine plain opened name hstandard fun d hd => ?_
    obtain rfl := Option.some.inj (hc.symm.trans hd)
    simpa using hunmarked
  | case4 opened name hstandard c hc hmarked hopen =>
    exact circular opened name c hstandard hc (by simpa using hmarked) hopen
  | case5 opened name hstandard c hc hmarked hopen ih =>
    exact read opened name c hstandard hc (by simpa using hmarked) hopen ih

end Reflection

end Docblock
