import Docblock.Class.Standard
import Docblock.Proofs.Lookup.Readers
import Docblock.Proofs.Object.Hierarchy
import Docblock.Proofs.Schema.Recalled

/-!
# Parsing with further ancestors

A text that is read without an error is read to the same annotations when some classes have further
ancestors, however these make the hierarchy look. The schemas that are read on the way are the same
as well, so that the memory left behind does not tell the two registries apart. Nothing is said of
texts that fail: with further ancestors a type may accept what it refused.
-/

namespace Docblock

open Reflection

section Persistence

variable {registry wider : Registry} {α : Type}

/-- Whatever the first lookup gives, the second gives, and leaves the same memory behind. -/
def Persists (x y : Lookup α) : Prop :=
  ∀ m a n, x.result m = (.ok a, n) → y.result m = (.ok a, n)

def persistence (registry : Registry) : LookupRelation registry where
  Related := Persists
  related_pure _ _ _ _ h := h
  related_throw _ _ _ _ h := h
  related_bind := by
    intro α β x y f g hx hf m b o hrun
    obtain ⟨a, n, hfirst, hrest⟩ := Lookup.bind_eq_ok hrun
    rw [Lookup.result_bind_ok (hx m a n hfirst)]
    exact hf a ⟨m, n, hfirst⟩ n b o hrest
  related_exists _ _ _ _ h := h

theorem persistence_twin (h : registry.Within wider) : (persistence registry).Twin wider where
  exists_eq := h.exists_eq
  constant_eq := h.constant_eq
  objects := by
    intro s place values m a n hrun
    have hmade : s.objectOf registry place values = .ok a := Lookup.eq_ok_of_returns ⟨m, n, hrun⟩
    rw [hmade] at hrun
    rw [h.objectOf hmade]
    exact hrun

/-- The ancestors of a class are not part of its schema. -/
theorem schemaOfClass_of_within (read : DocReader) {c d : ClassDeclaration} (h : c.Within d) :
    schemaOfClass read d = schemaOfClass read c := by
  have hproperties (declared : List PropertySchema) (isFirst : Bool)
      (properties : List PropertySchema) (rest : List PropertyDeclaration) :
      addProperties read d declared isFirst properties rest =
        addProperties read c declared isFirst properties rest := by
    induction rest generalizing isFirst properties with
    | nil => rfl
    | cons p rest ih =>
      have hproperty : propertySchema read d declared isFirst p =
          propertySchema read c declared isFirst p := by
        rw [h.eq]
        rfl
      unfold addProperties
      rw [hproperty]
      exact bind_congr fun property => ih false _
  unfold schemaOfClass
  simp only [hproperties]
  rw [h.eq]
  rfl

variable {build other : ClassDeclaration → Lookup AnnotationSchema}

theorem persists_reflect (h : registry.Within wider)
    (hbuild : ∀ c d : ClassDeclaration, c.Within d → Persists (build c) (other d))
    (name : String) : Persists (reflect registry build name) (reflect wider other name) := by
  intro m a n hrun
  rcases h.describe_cases name with ⟨hnone, hother⟩ | ⟨c, d, hc, hd, hwithin⟩
  · unfold reflect at hrun ⊢
    rw [hother]
    rw [hnone] at hrun
    exact hrun
  · have hdoc : d.doc = c.doc := by rw [hwithin.eq]
    cases hmarked : Text.occursIn marker c.doc with
    | false =>
      unfold reflect at hrun ⊢
      rw [hd]
      rw [hc] at hrun
      dsimp only at hrun ⊢
      rw [hdoc, hmarked]
      rw [hmarked] at hrun
      exact hrun
    | true =>
      by_cases hopen : name ∈ m.reflecting
      · rw [reflect_circular hc hmarked hopen] at hrun
        cases hrun
      · rw [reflect_entered hc hmarked hopen] at hrun
        rw [reflect_entered hd (by rw [hdoc]; exact hmarked) hopen]
        cases hbuilt : (build c).result (m.enter name) with
        | mk outcome mid =>
          rw [hbuilt] at hrun
          cases outcome with
          | error e => cases hrun
          | ok schema =>
            rw [hbuild c d hwithin _ _ _ hbuilt]
            exact hrun

theorem persists_recalled (h : registry.Within wider)
    (hbuild : ∀ c d : ClassDeclaration, c.Within d → Persists (build c) (other d))
    (name : String) : Persists (recalled registry build name) (recalled wider other name) := by
  intro m found n hrun
  cases hfound : m.schemas.find? name with
  | some schema =>
    rw [recalled_found hfound] at hrun ⊢
    exact hrun
  | none =>
    cases hplain : m.isPlain name with
    | true =>
      rw [recalled_known hfound hplain] at hrun ⊢
      exact hrun
    | false =>
      rw [recalled_missing hfound hplain] at hrun ⊢
      cases hreflected : (reflect registry build name).result m with
      | mk outcome mid =>
        rw [hreflected] at hrun
        cases outcome with
        | error e => cases hrun
        | ok done =>
          rw [persists_reflect h hbuild name m done mid hreflected]
          exact hrun

/-- The schema of a class is found with further ancestors if it is found without them. -/
theorem persists_schemaOf (h : registry.Within wider) (depth : Nat) (owner : Settings)
    (name : String) :
    Persists (schemaOf registry depth owner name) (schemaOf wider depth owner name) := by
  induction depth generalizing owner name with
  | zero =>
    refine persists_recalled h (fun c d _ m schema n hrun => ?_) name
    rw [Lookup.result_throw] at hrun
    cases hrun
  | succ depth ih =>
    refine persists_recalled h (fun c d hwithin => ?_) name
    simp only [schemaOfClass_of_within _ hwithin]
    let r := persistence registry
    have hsettings : r.Related (liftM (docSettings owner) : Lookup Settings)
        (liftM (docSettings owner)) := fun _ _ _ hrun => hrun
    refine r.related_bind hsettings fun settings _ => r.related_schemaOfClass ?_ c
    intro context target doc
    exact LookupRelation.related_readDoc_under
      ⟨registry, settings, context, schemaOf registry depth settings⟩
      (schemaOf wider depth settings) (persistence_twin h) (fun _ => ih settings _) target doc

end Persistence

namespace Parser

def under (p : Parser) (registry : Registry) : Parser := { p with registry }

/-- What is read without an error is read alike with further ancestors, and so are the schemas that
are read on the way. -/
theorem parse_under {p q : Parser} {wider : Registry} (h : p.registry.Within wider)
    {input context : String} {as : List Annotation}
    (hparse : p.parse input context = (.ok as, q)) :
    (p.under wider).parse input context = (.ok as, q.under wider) := by
  have hsource (name : String) : Persists (p.schemaOf p.settings name)
      (Reflection.schemaOf wider p.registry.classes.length p.settings name) :=
    persists_schemaOf h p.registry.classes.length p.settings name
  have hread : Persists
      (readDoc (p.scope p.settings context) p.settings.target input)
      (readDoc ((p.under wider).scope p.settings context) p.settings.target input) := by
    have hdepth : (p.under wider).schemaOf p.settings =
        Reflection.schemaOf wider p.registry.classes.length p.settings := by
      unfold Parser.schemaOf under
      rw [h.classes.length_eq]
    unfold Parser.scope
    rw [hdepth]
    exact LookupRelation.related_readDoc_under (p.scope p.settings context) _ (persistence_twin h)
      (fun _ => hsource _) p.settings.target input
  cases hrun : (readDoc (p.scope p.settings context) p.settings.target input).result p.memory with
  | mk outcome m =>
    have hfirst : p.parse input context = (outcome, { p with memory := m }) := by
      unfold Parser.parse Parser.outcome
      exact congrArg (fun r => (r.1, { p with memory := r.2 })) hrun
    obtain ⟨rfl, rfl⟩ := Prod.mk.inj (hfirst.symm.trans hparse)
    have hother := hread p.memory as m hrun
    unfold Parser.parse Parser.outcome
    exact congrArg (fun r => (r.1, { p.under wider with memory := r.2 })) hother

/-- Nodes and leaves, which are nodes, and a class that holds a node. -/
def familyRegistry (furtherOfNode : List String) : Registry :=
  Registry.standard
    |>.register (.make "Node" "/** @Annotation */" [] furtherOfNode)
    |>.register (.make "Leaf" "/** @Annotation */" [] ["Node"])
    |>.register (.make "Holder" "/** @Annotation */" [⟨"node", "/** @var Node */", .null⟩])

theorem within_familyRegistry (further : List String) :
    (familyRegistry []).Within (familyRegistry further) := by
  have hnode : (ClassDeclaration.make "Node" "/** @Annotation */").Within
      (.make "Node" "/** @Annotation */" [] further) :=
    ⟨rfl, List.nil_subset _⟩
  exact (((Registry.Within.refl .standard).register hnode).register (.refl _)).register (.refl _)

/-- A leaf passes for a node, also when every node is a leaf and a holder in turn. -/
theorem parse_under_familyRegistry :
    (Parser.new (familyRegistry [])).registry.Within (familyRegistry ["Leaf", "Holder"]) ∧
    ∃ as q, as ≠ [] ∧
      (Parser.new (familyRegistry [])).parse "@\\Holder(@\\Leaf)" = (.ok as, q) ∧
      ((Parser.new (familyRegistry [])).under (familyRegistry ["Leaf", "Holder"])).parse
        "@\\Holder(@\\Leaf)" = (.ok as, q.under (familyRegistry ["Leaf", "Holder"])) := by
  have hwithin := within_familyRegistry ["Leaf", "Holder"]
  have hsome : ((Parser.new (familyRegistry [])).parse "@\\Holder(@\\Leaf)").1.toOption.map
      List.isEmpty = some false := by
    decide +kernel
  obtain ⟨as, q, hparse, has⟩ := Except.exists_run_of_map hsome
  exact ⟨hwithin, as, q, List.isEmpty_eq_false_iff.1 has, hparse, parse_under hwithin hparse⟩

end Parser

end Docblock
