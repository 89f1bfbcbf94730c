import Docblock.Proofs.Schema.Transparency
import Docblock.Proofs.Schema.References
import Mathlib.Logic.Relation

/-!
# Circular references

A class is reported as circular only if it needs itself: reading its schema asks for another class,
that one for the next, and so on back to the class. The report travels from where it is made up
through all classes being read, and each of them has asked for the one before.
-/

namespace Docblock

open Reflection Relation

section Blame

variable {registry : Registry} {settings : Settings}
  {source : String → Except AnnotationError (Option AnnotationSchema)}

/-- The second reading notes the classes asked for and fails when the first one does. The error of
the first is its own or that of a class noted. -/
def blame (registry : Registry)
    (source : String → Except AnnotationError (Option AnnotationSchema)) :
    Correspondence registry where
  exchange := .none
  rest := []
  quiet := Glyph.quiet_nil
  Related R x y := ∀ m n, m.Knows registry → n.Knows registry →
    match x.result m with
    | (.ok a, m') => m'.Knows registry ∧
        ∃ b n', y.result n = (.ok b, n') ∧ n'.Knows registry ∧ R a b
    | (.error e, _) => ∃ f n', y.result n = (.error f, n') ∧
        (e.IsOwn ∨ ∃ name ∈ n'.reflecting, ClassName.bare name = name ∧ source name = .error e)
  related_pure hab _ n hm hn := ⟨hm, _, n, rfl, hn, hab⟩
  related_bind := by
    intro α β γ δ R S x y f g hx hf m n hm hn
    have hfirst := hx m n hm hn
    rw [Lookup.result_bind]
    cases hrun : x.result m with
    | mk outcome m' =>
      rw [hrun] at hfirst
      cases outcome with
      | ok a =>
        obtain ⟨hm', b, n', hother, hn', hab⟩ := hfirst
        rw [Lookup.result_bind_ok hother]
        exact hf a b hab m' n' hm' hn'
      | error e =>
        obtain ⟨other, n', hother, hblamed⟩ := hfirst
        exact ⟨other, n', Lookup.result_bind_error hother, hblamed⟩
  related_throw he _ _ n _ _ := ⟨_, n, rfl, .inl he⟩
  related_swapped h := absurd h (Exchange.not_swaps_none _ _)
  related_stuck hrest := absurd rfl hrest
  related_exists name m n hm hn := by
    obtain ⟨m', hrun, hm'⟩ := result_classExists hm name
    obtain ⟨n', hother, hn'⟩ := result_classExists hn name
    rw [hrun]
    exact ⟨hm', _, n', hother, hn', rfl⟩

theorem related_noted {name : String} (hname : ClassName.bare name = name) :
    (blame registry source).Related Eq (.ofExcept (source name)) (noted source name) := by
  intro m n hm hn
  rw [Lookup.result_ofExcept]
  cases hsource : source name with
  | ok schema => exact ⟨hm, schema, n.enter name, by rw [result_noted, hsource], hn, rfl⟩
  | error e =>
    refine ⟨e, n.enter name, by rw [result_noted, hsource], .inr ⟨name, ?_, hname, hsource⟩⟩
    exact List.mem_cons_self

/-- A doc comment that cannot be read has an error of its own or asks for a class that has one. -/
theorem readerFrom_blames (registry : Registry) (settings : Settings)
    (source : String → Except AnnotationError (Option AnnotationSchema)) (d : ReflectedDoc)
    {m : Memory} (hm : m.Knows registry) :
    match (readerFrom registry settings source d.context d.target d.text).result m with
    | (.ok _, n) => n.Knows registry
    | (.error e, _) => e.IsOwn ∨ ∃ name ∈ askedFrom registry settings source d,
        ClassName.bare name = name ∧ source name = .error e := by
  let scope : Scope := ⟨registry, settings, d.context, fun name => .ofExcept (source name)⟩
  have hu := Correspondence.understands_of_none scope (noted source) (blame registry source) rfl
    fun name => related_noted (ClassName.bare_bare name)
  have hread := Correspondence.related_readDoc scope (noted source) (blame registry source) hu rfl
    d.target d.text
  have hrun := hread m .initial hm (Memory.knows_initial registry)
  unfold readerFrom
  cases houtcome : (readDoc ⟨registry, settings, d.context, fun name => .ofExcept (source name)⟩
    d.target d.text).result m with
  | mk outcome m' =>
    rw [houtcome] at hrun
    cases outcome with
    | ok found => exact hrun.1
    | error e =>
      obtain ⟨other, n', hother, hblamed⟩ := hrun
      have hnotes : askedFrom registry settings source d = n'.reflecting :=
        congrArg (fun outcome => outcome.2.reflecting) hother
      rw [hnotes]
      exact hblamed

def Blamed (registry : Registry) (settings : Settings) (opened : List String) (d : ReflectedDoc)
    (e : AnnotationError) : Prop :=
  ∃ name ∈ asked registry settings opened d, ClassName.bare name = name ∧
    schemaFromScratch registry settings opened name = .error e

theorem covers_readerFrom (settings : Settings) (opened : List String) (d : ReflectedDoc) :
    Covers (fun m => m.Knows registry) (fun _ _ => True) (Blamed registry settings opened) [d]
      (readerFrom registry settings (schemaFromScratch registry settings opened) d.context d.target
        d.text) := by
  intro m hm
  let source := schemaFromScratch registry settings opened
  have hrun := readerFrom_blames registry settings source d hm
  cases houtcome : (readerFrom registry settings source d.context d.target d.text).result m with
  | mk outcome n =>
    rw [houtcome] at hrun
    cases outcome with
    | ok found => exact ⟨hrun, fun _ h => h, fun _ _ => trivial⟩
    | error e => exact hrun.imp_right fun hblamed => ⟨d, List.mem_singleton_self d, hblamed⟩

end Blame

section Reaches

variable {registry : Registry} {names opened : List String} {name className : String}

/-- What is reported while a class is read was asked for by the class. -/
theorem references_of_circular {c : ClassDeclaration} (hname : ClassName.bare name = name)
    (hstandard : SchemaTable.standard.find? name = none) (hc : registry.describe? name = some c)
    (hmarked : Text.occursIn marker c.doc = true) (hopen : name ∉ opened)
    (h : schemaFromScratch registry (.forDocs names) opened name = .error (.circular className)) :
    ∃ other, References registry names name other ∧ ClassName.bare other = other ∧
      schemaFromScratch registry (.forDocs names) (name :: opened) other =
        .error (.circular className) := by
  rw [schemaFromScratch_eq hstandard hname hc hmarked hopen] at h
  have hcovers := covers_schemaOfClass (covers_readerFrom (.forDocs names) (name :: opened)) c
    .initial (Memory.knows_initial registry)
  unfold scratchSchema at h
  cases hrun : (schemaOfClass (readerFrom registry (.forDocs names)
    (schemaFromScratch registry (.forDocs names) (name :: opened))) c).result .initial with
  | mk outcome n =>
    rw [hrun] at h hcovers
    cases outcome with
    | ok schema => cases h
    | error e =>
      obtain rfl := Except.error.inj h
      rcases hcovers with hown | ⟨d, hd, other, hother, hbare, hsource⟩
      · exact absurd hown id
      · exact ⟨other, ⟨hstandard, c, hc, hmarked, d, hd, opened, hother⟩, hbare, hsource⟩

/-- A class reported as circular is being read and is reached from the class asked for, or it
reaches itself. -/
theorem reaches_of_circular (hname : ClassName.bare name = name)
    (h : schemaFromScratch registry (.forDocs names) opened name = .error (.circular className)) :
    (className ∈ opened ∧ ReflTransGen (References registry names) name className) ∨
      TransGen (References registry names) className className := by
  induction opened, name using scratch_induction registry with
  | standard opened name schema hstandard =>
    rw [schemaFromScratch_standard hstandard] at h
    cases h
  | plain opened name hstandard hplain =>
    rw [schemaFromScratch_plain hstandard hplain] at h
    cases h
  | circular opened name c hstandard hc hmarked hopen =>
    rw [schemaFromScratch_opened hstandard hc hmarked hopen] at h
    rw [Registry.name_eq_of_describe? hname hc] at h hopen
    cases h
    exact .inl ⟨hopen, .refl⟩
  | read opened name c hstandard hc hmarked hopen ih =>
    rw [Registry.name_eq_of_describe? hname hc] at hopen ih
    obtain ⟨other, hrefers, hbare, hother⟩ :=
      references_of_circular hname hstandard hc hmarked hopen h
    rcases ih other hbare hother with ⟨hmem, hreaches⟩ | hcycle
    · have hpath := TransGen.head' hrefers hreaches
      rcases List.mem_cons.1 hmem with rfl | hmem
      · exact .inr hpath
      · exact .inl ⟨hmem, hpath.to_reflTransGen⟩
    · exact .inr hcycle

end Reaches

end Docblock
