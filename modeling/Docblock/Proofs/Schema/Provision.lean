import Docblock.Proofs.Schema.References
import Docblock.Proofs.Schema.Transparency

/-!
# What reading a class provides

A memory provides a class if it remembers its schema or the class is no annotation. After a doc
comment has been read, every class it asks for is provided. This holds of whatever is asked for in
a reading from scratch, too: with fewer classes being read the same schemas are found, so that such
a reading asks for no class that the one with a memory does not ask for.
-/

namespace Docblock

open Reflection

section Succeeding

variable {registry : Registry} {settings : Settings} {opened fewer : List String} {name : String}

def succession (registry : Registry) : LookupRelation registry where
  Related x y := ∀ m n, m.Knows registry → n.Knows registry → ∀ a m', x.result m = (.ok a, m') →
    m'.Knows registry ∧ ∃ n', y.result n = (.ok a, n') ∧ n'.Knows registry
  related_pure := by
    rintro α a m n hm hn _ _ ⟨⟩
    exact ⟨hm, n, rfl, hn⟩
  related_throw := by
    rintro α e m n hm hn _ _ ⟨⟩
  related_bind := by
    intro α β x y f g hx hf m n hm hn b m' hrun
    obtain ⟨a, mid, hfirst, hrest⟩ := Lookup.bind_eq_ok hrun
    obtain ⟨hmid, n', hother, hn'⟩ := hx m n hm hn a mid hfirst
    rw [Lookup.result_bind_ok hother]
    exact hf a ⟨m, mid, hfirst⟩ mid n' hmid hn' b m' hrest
  related_exists := by
    intro name m n hm hn present m' hrun
    obtain ⟨n', hother, hn'⟩ := result_classExists hn name
    obtain ⟨o, hthis, ho⟩ := result_classExists hm name
    obtain ⟨⟨⟩, rfl⟩ := Prod.mk.inj (hthis.symm.trans hrun)
    exact ⟨ho, n', hother, hn'⟩

/-- A schema found while some classes are being read is found while fewer are. -/
theorem schemaFromScratch_of_subset (hsubset : fewer ⊆ opened)
    {found : Option AnnotationSchema}
    (h : schemaFromScratch registry settings opened name = .ok found) :
    schemaFromScratch registry settings fewer name = .ok found := by
  induction opened, name using scratch_induction registry generalizing fewer found with
  | standard opened name schema hstandard =>
    rw [schemaFromScratch_standard hstandard] at h ⊢
    exact h
  | plain opened name hstandard hplain =>
    rw [schemaFromScratch_plain hstandard hplain] at h ⊢
    exact h
  | circular opened name c hstandard hc hmarked hopen =>
    rw [schemaFromScratch_opened hstandard hc hmarked hopen] at h
    cases h
  | read opened name c hstandard hc hmarked hopen ih =>
    have hless : c.name ∉ fewer := fun hmem => hopen (hsubset hmem)
    let source := schemaFromScratch registry settings (c.name :: opened)
    let other := schemaFromScratch registry settings (c.name :: fewer)
    have hsource (inner : String) :
        (succession registry).Related (.ofExcept (source inner)) (.ofExcept (other inner)) := by
      intro m n hm hn answer m' hrun
      rw [Lookup.result_ofExcept] at hrun
      obtain ⟨hfound, rfl⟩ := Prod.mk.inj hrun
      have hother : other inner = .ok answer :=
        ih inner (List.cons_subset_cons c.name hsubset) hfound
      rw [Lookup.result_ofExcept, hother]
      exact ⟨hm, n, rfl, hn⟩
    have hread (context : String) (target : Target) (doc : String) : (succession registry).Related
        (readerFrom registry settings source context target doc)
        (readerFrom registry settings other context target doc) :=
      LookupRelation.related_readDoc
        ⟨registry, settings, context, fun name => .ofExcept (source name)⟩
        (fun name => .ofExcept (other name)) (succession registry) (fun _ => hsource _) target doc
    rw [schemaFromScratch_marked hstandard hc hmarked hopen] at h
    rw [schemaFromScratch_marked hstandard hc hmarked hless]
    cases hrun : (schemaOfClass (readerFrom registry settings source) c).result .initial with
    | mk outcome m =>
      rw [hrun] at h
      cases outcome with
      | error e => cases h
      | ok schema =>
        have hknows := Memory.knows_initial registry
        obtain ⟨-, n, hother, -⟩ := (succession registry).related_schemaOfClass hread c .initial
          .initial hknows hknows schema m hrun
        rw [hother]
        exact h

end Succeeding

/-- The memory has the schema of the class, unless the class is no annotation. -/
def Memory.Provides (registry : Registry) (m : Memory) (name : String) : Prop :=
  (∃ schema, m.schemas.find? name = some schema) ∨ IsPlain registry name

theorem Memory.Provides.of_extends {registry : Registry} {m n : Memory} {name : String}
    (h : m.Provides registry name) (hgrown : m.Extends n) : n.Provides registry name := by
  rcases h with ⟨schema, hschema⟩ | hplain
  · exact .inl ⟨schema, hgrown.schemas name schema hschema⟩
  · exact .inr hplain

section Recording

variable {registry : Registry} {names ignored : List String} {depth : Nat} {opened : List String}
  {name : String} {α β : Type}

/-- The first lookup provides every class that the second one notes, if it succeeds. -/
def Records (registry : Registry) (names ignored : List String) (depth : Nat) (x y : Lookup α) :
    Prop :=
  ∀ m, m.Faithful registry names → (m.docSettings? = none → ignored = names) →
    registry.unopened m.reflecting ≤ depth →
    (x.result m).2.Faithful registry names ∧ m.Extends (x.result m).2 ∧
      ∀ a m', x.result m = (.ok a, m') → ∀ n, n.Knows registry →
        (∀ other ∈ (y.result n).2.reflecting,
          other ∈ n.reflecting ∨ m'.Provides registry other) ∧
        ∀ b n', y.result n = (.ok b, n') → b = a ∧ n'.Knows registry

theorem records_bind {x y : Lookup α} {f g : α → Lookup β}
    (hx : Records registry names ignored depth x y)
    (hf : ∀ a, x.Returns a → Records registry names ignored depth (f a) (g a)) :
    Records registry names ignored depth (x >>= f) (y >>= g) := by
  intro m hm hsettles hdepth
  obtain ⟨hmid, hgrown, hnotes⟩ := hx m hm hsettles hdepth
  cases hrun : x.result m with
  | mk outcome mid =>
    rw [hrun] at hmid hgrown
    cases outcome with
    | error e =>
      rw [Lookup.result_bind_error hrun]
      exact ⟨hmid, hgrown, nofun⟩
    | ok a =>
      have hmidsettles : mid.docSettings? = none → ignored = names := fun hopen =>
        hsettles (hgrown.unsettled hopen)
      obtain ⟨hend, hlast, hrest⟩ :=
        hf a ⟨m, mid, hrun⟩ mid hmid hmidsettles (by rw [hgrown.reflecting]; exact hdepth)
      rw [Lookup.result_bind_ok hrun]
      refine ⟨hend, hgrown.trans hlast, fun b m' hout n hn => ?_⟩
      rw [hout] at hlast
      obtain ⟨hnoted, hsame⟩ := hnotes a mid hrun n hn
      rw [Lookup.result_bind]
      cases hother : y.result n with
      | mk outcome n₁ =>
        rw [hother] at hnoted
        have hkept : ∀ other ∈ n₁.reflecting, other ∈ n.reflecting ∨ m'.Provides registry other :=
          fun other hmem => (hnoted other hmem).imp_right fun h => h.of_extends hlast
        cases outcome with
        | error e => exact ⟨hkept, nofun⟩
        | ok a' =>
          obtain ⟨rfl, hn₁⟩ := hsame a' n₁ hother
          obtain ⟨hlater, hequal⟩ := hrest b m' hout n₁ hn₁
          refine ⟨fun other hmem => ?_, hequal⟩
          rcases hlater other hmem with hmem | hprovided
          · exact hkept other hmem
          · exact .inr hprovided

def recording (registry : Registry) (names ignored : List String) (depth : Nat) :
    LookupRelation registry where
  Related := Records registry names ignored depth
  related_pure a m hm _ _ := by
    refine ⟨hm, Memory.Extends.refl m, ?_⟩
    rintro _ _ ⟨⟩ n hn
    refine ⟨fun other hmem => .inl hmem, ?_⟩
    rintro _ _ ⟨⟩
    exact ⟨rfl, hn⟩
  related_throw e m hm _ _ := ⟨hm, Memory.Extends.refl m, nofun⟩
  related_bind := records_bind
  related_exists name m hm hsettles hdepth := by
    have hexists : Transparent registry names ignored depth [] _ _ := .of_exists name
    obtain ⟨hend, hgrown, -⟩ := hexists m hm hsettles hdepth
    obtain ⟨o, hthis, -⟩ := result_classExists hm.knows name
    refine ⟨hend, hgrown, fun present m' hrun n hn => ?_⟩
    obtain ⟨⟨⟩, rfl⟩ := Prod.mk.inj (hthis.symm.trans hrun)
    obtain ⟨n', hother, hn'⟩ := result_classExists hn name
    have hnotes : n'.reflecting = n.reflecting := by
      rw [Lookup.result_recall] at hother
      rcases run_classExists hn name with hnext | hnext
      · rw [hnext] at hother
        rw [← (Prod.mk.inj hother).2]
      · rw [hnext] at hother
        rw [← (Prod.mk.inj hother).2]
        rfl
    rw [hother]
    refine ⟨fun other hmem => .inl (hnotes ▸ hmem), ?_⟩
    rintro _ _ ⟨⟩
    exact ⟨rfl, hn'⟩

/-- A class without a schema is no annotation. -/
theorem isPlain_of_schemaFromScratch {settings : Settings}
    (h : schemaFromScratch registry settings opened name = .ok none) : IsPlain registry name := by
  intro c hc
  cases hmarked : Text.occursIn marker c.doc with
  | false => rfl
  | true =>
    cases hstandard : SchemaTable.standard.find? name with
    | some schema =>
      rw [schemaFromScratch_standard hstandard] at h
      cases h
    | none =>
      by_cases hopen : c.name ∈ opened
      · rw [schemaFromScratch_opened hstandard hc hmarked hopen] at h
        cases h
      · rw [schemaFromScratch_marked hstandard hc hmarked hopen] at h
        revert h
        cases ((schemaOfClass _ c).result .initial).1 <;> nofun

/-- What a look for a schema gives is what is remembered then. -/
theorem find?_of_recalled {build : ClassDeclaration → Lookup AnnotationSchema} {m m' : Memory}
    {found : Option AnnotationSchema}
    (h : (recalled registry build name).result m = (.ok found, m')) :
    m'.schemas.find? name = found := by
  cases hfound : m.schemas.find? name with
  | some schema =>
    rw [recalled_found hfound] at h
    obtain ⟨⟨⟩, rfl⟩ := Prod.mk.inj h
    exact hfound
  | none =>
    cases hplain : m.isPlain name with
    | true =>
      rw [recalled_known hfound hplain] at h
      obtain ⟨⟨⟩, rfl⟩ := Prod.mk.inj h
      exact hfound
    | false =>
      rw [recalled_missing hfound hplain] at h
      split at h
      · obtain ⟨⟨⟩, rfl⟩ := Prod.mk.inj h
        rfl
      · cases h

theorem find?_of_schemaOf {owner : Settings} {m m' : Memory} {found : Option AnnotationSchema}
    (h : (schemaOf registry depth owner name).result m = (.ok found, m')) :
    m'.schemas.find? name = found := by
  cases depth with
  | zero => exact find?_of_recalled h
  | succ depth => exact find?_of_recalled h

/-- Looking for a schema provides its class. -/
theorem records_schemaOf (depth : Nat) (owner : Settings) (opened : List String)
    (hname : ClassName.bare name = name) : Records registry names owner.ignoredNames depth
      (schemaOf registry depth owner name)
      (noted (schemaFromScratch registry (.forDocs names) opened) name) := by
  intro m hm hsettles hdepth
  obtain ⟨hend, hgrown, hagrees⟩ :=
    transparent_schemaOf depth owner [] hname m hm hsettles hdepth
  refine ⟨hend, hgrown, fun found m' hrun n hn => ?_⟩
  rw [hrun] at hagrees
  obtain ⟨o, hscratch, -⟩ := hagrees nofun n hn
  rw [Lookup.result_ofExcept] at hscratch
  obtain ⟨hanswer, rfl⟩ := Prod.mk.inj hscratch
  rw [result_noted]
  refine ⟨fun other hmem => ?_, fun found' n' hother => ?_⟩
  · rcases List.mem_cons.1 hmem with rfl | hmem
    · right
      cases found with
      | none => exact .inr (isPlain_of_schemaFromScratch hanswer)
      | some schema => exact .inl ⟨schema, find?_of_schemaOf hrun⟩
    · exact .inl hmem
  · obtain ⟨hopened, rfl⟩ := Prod.mk.inj hother
    have hfewer := schemaFromScratch_of_subset (List.nil_subset opened) hopened
    rw [hanswer] at hfewer
    exact ⟨(Except.ok.inj hfewer).symm, hn⟩

def readerTo (registry : Registry) (depth : Nat) (settings : Settings) : DocReader :=
  fun context target doc =>
    readDoc ⟨registry, settings, context, schemaOf registry depth settings⟩ target doc

def ProvidesAsked (registry : Registry) (names : List String) (d : ReflectedDoc) (m : Memory) :
    Prop :=
  ∀ opened, ∀ other ∈ asked registry (.forDocs names) opened d, m.Provides registry other

theorem covers_readerTo (d : ReflectedDoc) :
    Covers (fun m => m.Faithful registry names ∧ registry.unopened m.reflecting ≤ depth)
      (ProvidesAsked registry names) (fun _ _ => True) [d]
      (readerTo registry depth (.forDocs names) d.context d.target d.text) := by
  have hrecords (opened : List String) : Records registry names names depth
      (readerTo registry depth (.forDocs names) d.context d.target d.text)
      (readDoc ⟨registry, .forDocs names, d.context,
        noted (schemaFromScratch registry (.forDocs names) opened)⟩ d.target d.text) :=
    LookupRelation.related_readDoc
      ⟨registry, .forDocs names, d.context, schemaOf registry depth (.forDocs names)⟩ _
      (recording registry names names depth)
      (fun name => records_schemaOf depth (.forDocs names) opened (ClassName.bare_bare name))
      d.target d.text
  rintro m ⟨hm, hdepth⟩
  cases hrun : (readerTo registry depth (.forDocs names) d.context d.target d.text).result m with
  | mk outcome n =>
    cases outcome with
    | error e => exact .inr ⟨d, List.mem_singleton_self d, trivial⟩
    | ok found =>
      obtain ⟨hn, hgrown, -⟩ := hrecords [] m hm (fun _ => rfl) hdepth
      rw [hrun] at hn hgrown
      refine ⟨⟨hn, by rw [hgrown.reflecting]; exact hdepth⟩, ?_, ?_⟩
      · intro other hother opened name hname
        exact (hother opened name hname).of_extends hgrown
      · intro other hother opened name hname
        rw [List.mem_singleton.1 hother] at hname
        obtain ⟨-, -, hnotes⟩ := hrecords opened m hm (fun _ => rfl) hdepth
        obtain ⟨hnoted, -⟩ := hnotes found n hrun .initial (Memory.knows_initial registry)
        exact (hnoted name hname).resolve_left nofun

/-- When the schema of a class has been read, every class it refers to is provided. -/
theorem provides_of_schemaOfClass {c : ClassDeclaration} {m n : Memory} {schema : AnnotationSchema}
    (hm : m.Faithful registry names) (hdepth : registry.unopened m.reflecting ≤ depth)
    (hc : registry.describe? name = some c)
    (h : (schemaOfClass (readerTo registry depth (.forDocs names)) c).result m = (.ok schema, n))
    {other : String} (hrefers : References registry names name other) :
    n.Provides registry other := by
  obtain ⟨-, c', hc', -, d, hd, opened, hasked⟩ := hrefers
  obtain rfl := Option.some.inj (hc'.symm.trans hc)
  have hrun := covers_schemaOfClass covers_readerTo c' m ⟨hm, hdepth⟩
  rw [h] at hrun
  exact hrun.2.2 d hd (name :: opened) other hasked

end Recording

end Docblock
