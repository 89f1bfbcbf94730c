import Docblock.Proofs.Lookup.Corresponding
import Docblock.Proofs.Schema.WellFormed

/-!
# References between annotation classes

Reading the schema of a class reads doc comments: that of the class, and those of its properties
that declare enumerations unless a constructor takes the arguments. The classes whose schemas are
asked for meanwhile are the ones the class refers to. A schema that cannot be read fails for a
reason of its own, or because a schema asked for in one of these doc comments failed.
-/

namespace Docblock

open Reflection

namespace Reflection

structure ReflectedDoc where
  context : String
  target : Target
  text : String

def classDoc (c : ClassDeclaration) : ReflectedDoc := ⟨"class @" ++ c.name, .onClass, c.doc⟩

def propertyDocs (c : ClassDeclaration) (properties : List PropertyDeclaration) :
    List ReflectedDoc :=
  (properties.filter fun p => Text.occursIn "@Enum" p.doc).map fun p =>
    ⟨"property " ++ c.name ++ "::$" ++ p.name, .onProperty, p.doc⟩

def reflectedDocs (c : ClassDeclaration) : List ReflectedDoc :=
  classDoc c :: if c.hasConstructor then [] else propertyDocs c c.properties

/-- A source of schemas that notes the classes asked for. From scratch no class is entered
otherwise. -/
def noted (source : String → Except AnnotationError (Option AnnotationSchema)) (name : String) :
    Lookup (Option AnnotationSchema) := do
  modify fun m => m.enter name
  Lookup.ofExcept (source name)

@[simp] theorem result_noted
    (source : String → Except AnnotationError (Option AnnotationSchema)) (name : String)
    (m : Memory) : (noted source name).result m = (source name, m.enter name) := by
  unfold noted
  rw [Lookup.result_modify_bind, Lookup.result_ofExcept]

def askedFrom (registry : Registry) (settings : Settings)
    (source : String → Except AnnotationError (Option AnnotationSchema)) (d : ReflectedDoc) :
    List String :=
  ((readDoc ⟨registry, settings, d.context, noted source⟩ d.target d.text).result
    .initial).2.reflecting

def asked (registry : Registry) (settings : Settings) (opened : List String) (d : ReflectedDoc) :
    List String :=
  askedFrom registry settings (schemaFromScratch registry settings opened) d

/-- Reading the schema of the first class asks for that of the second one, whatever other classes
are being read at the time. -/
def References (registry : Registry) (names : List String) (name other : String) : Prop :=
  SchemaTable.standard.find? name = none ∧ ∃ c, registry.describe? name = some c ∧
    Text.occursIn marker c.doc = true ∧ ∃ d ∈ reflectedDocs c, ∃ opened,
      other ∈ asked registry (.forDocs names) (name :: opened) d

theorem not_isPlain_of_references {registry : Registry} {names : List String}
    {name other : String} (h : References registry names name other) : ¬ IsPlain registry name := by
  obtain ⟨-, c, hc, hmarked, -⟩ := h
  intro hplain
  rw [hplain c hc] at hmarked
  cases hmarked

theorem Draft.failsOnly_apply (draft : Draft) (a : Annotation) :
    FailsOnly AnnotationError.IsOwn (draft.apply a) := by
  unfold Draft.apply
  split
  · cases Record.targets.read a with
    | ok record => exact failsOnly_ok _
    | error e => exact failsOnly_error trivial
  · split
    · cases Record.attributes.read a with
      | ok attributes => exact failsOnly_ok _
      | error e => exact failsOnly_error trivial
    · exact failsOnly_ok draft

/-- The lookup reads some doc comments. If it succeeds, each of them has left its mark on the
memory; if not, the error is its own or one of them is to blame. `Q` marks a memory after a doc
comment has been read, `B` blames a doc comment for an error. -/
def Covers (P : Memory → Prop) (Q : ReflectedDoc → Memory → Prop)
    (B : ReflectedDoc → AnnotationError → Prop) {α : Type} (docs : List ReflectedDoc)
    (x : Lookup α) : Prop :=
  ∀ m, P m → match x.result m with
    | (.ok _, n) => P n ∧ (∀ d, Q d m → Q d n) ∧ ∀ d ∈ docs, Q d n
    | (.error e, _) => e.IsOwn ∨ ∃ d ∈ docs, B d e

section Covers

variable {P : Memory → Prop} {Q : ReflectedDoc → Memory → Prop}
  {B : ReflectedDoc → AnnotationError → Prop} {α β : Type} {docs more : List ReflectedDoc}

theorem covers_pure (a : α) : Covers P Q B [] (pure a : Lookup α) := by
  intro m hm
  exact ⟨hm, fun _ h => h, by simp⟩

theorem covers_throw {e : AnnotationError} (he : e.IsOwn) :
    Covers P Q B docs (throw e : Lookup α) :=
  fun _ _ => .inl he

theorem covers_except {x : Except AnnotationError α} (hx : FailsOnly AnnotationError.IsOwn x) :
    Covers P Q B [] (liftM x : Lookup α) := by
  cases x with
  | ok a => exact covers_pure a
  | error e => exact covers_throw (hx e rfl)

theorem covers_made {made : Except SchemaError AnnotationSchema}
    (hmade : ∃ schema, made = .ok schema) : Covers P Q B []
    (match made with
      | .ok schema => return schema
      | .error e => throw (.schema e)) := by
  obtain ⟨schema, rfl⟩ := hmade
  exact covers_pure schema

theorem covers_bind {x : Lookup α} {f : α → Lookup β} (hx : Covers P Q B docs x)
    (hf : ∀ a, x.Returns a → Covers P Q B more (f a)) : Covers P Q B (docs ++ more) (x >>= f) := by
  intro m hm
  have hfirst := hx m hm
  rw [Lookup.result_bind]
  cases hrun : x.result m with
  | mk outcome n =>
    rw [hrun] at hfirst
    cases outcome with
    | error e =>
      refine hfirst.imp_right ?_
      rintro ⟨d, hd, hblamed⟩
      exact ⟨d, List.mem_append_left more hd, hblamed⟩
    | ok a =>
      obtain ⟨hn, hkept, hmarked⟩ := hfirst
      have hsecond := hf a ⟨m, n, hrun⟩ n hn
      dsimp only
      cases hrest : (f a).result n with
      | mk outcome o =>
        rw [hrest] at hsecond
        cases outcome with
        | error e =>
          refine hsecond.imp_right ?_
          rintro ⟨d, hd, hblamed⟩
          exact ⟨d, List.mem_append_right docs hd, hblamed⟩
        | ok b =>
          obtain ⟨ho, hlast, hlater⟩ := hsecond
          refine ⟨ho, fun d hd => hlast d (hkept d hd), fun d hd => ?_⟩
          rcases List.mem_append.1 hd with hd | hd
          · exact hlast d (hmarked d hd)
          · exact hlater d hd

theorem covers_bind_nil {x : Lookup α} {f : α → Lookup β} (hx : Covers P Q B docs x)
    (hf : ∀ a, x.Returns a → Covers P Q B [] (f a)) : Covers P Q B docs (x >>= f) := by
  have hboth := covers_bind hx hf
  rwa [List.append_nil] at hboth

theorem covers_nil_bind {x : Lookup α} {f : α → Lookup β} (hx : Covers P Q B [] x)
    (hf : ∀ a, x.Returns a → Covers P Q B docs (f a)) : Covers P Q B docs (x >>= f) :=
  covers_bind hx hf

variable {read : DocReader}
  (hread : ∀ d : ReflectedDoc, Covers P Q B [d] (read d.context d.target d.text))

include hread

theorem covers_enumerationOf (c : ClassDeclaration) (p : PropertyDeclaration) :
    Covers P Q B (propertyDocs c [p]) (enumerationOf read c p) := by
  unfold enumerationOf
  cases hdeclares : Text.occursIn "@Enum" p.doc with
  | false =>
    have hnone : propertyDocs c [p] = [] := by simp [propertyDocs, hdeclares]
    rw [hnone]
    exact covers_pure none
  | true =>
    have hone : propertyDocs c [p] =
        [⟨"property " ++ c.name ++ "::$" ++ p.name, .onProperty, p.doc⟩] := by
      simp [propertyDocs, hdeclares]
    rw [hone]
    refine covers_bind_nil (hread _) fun annotations _ => ?_
    cases Record.enumeration.first? annotations with
    | ok record => exact covers_pure _
    | error e => exact covers_throw trivial

theorem covers_addProperties (c : ClassDeclaration) (declared : List PropertySchema)
    (isFirst : Bool) (properties : List PropertySchema) (rest : List PropertyDeclaration) :
    Covers P Q B (propertyDocs c rest) (addProperties read c declared isFirst properties rest) := by
  induction rest generalizing isFirst properties with
  | nil => exact covers_pure properties
  | cons p rest ih =>
    have hsplit : propertyDocs c (p :: rest) = propertyDocs c [p] ++ propertyDocs c rest := by
      unfold propertyDocs
      rw [← List.map_append, ← List.filter_append, List.singleton_append]
    rw [hsplit]
    refine covers_bind (covers_bind_nil (covers_enumerationOf hread c p) fun _ _ => covers_pure _) ?_
    exact fun property _ => ih false _

/-- For the schema of a class exactly its reflected doc comments are read. -/
theorem covers_schemaOfClass (c : ClassDeclaration) :
    Covers P Q B (reflectedDocs c) (schemaOfClass read c) := by
  have hdrafts (annotations : List Annotation) :
      FailsOnly AnnotationError.IsOwn (annotations.foldlM Draft.apply .initial) :=
    failsOnly_foldlM (fun draft a _ => Draft.failsOnly_apply draft a) Draft.initial
  have hclass : Covers P Q B [classDoc c] (read ("class @" ++ c.name) .onClass c.doc) :=
    hread (classDoc c)
  unfold schemaOfClass reflectedDocs
  rw [← List.singleton_append]
  refine covers_bind hclass fun annotations _ => ?_
  refine covers_nil_bind (covers_except (hdrafts annotations)) fun draft hdraft => ?_
  have hnone := Draft.countDefaults_foldlM (Lookup.eq_ok_of_returns hdraft)
  dsimp only
  split
  · refine covers_bind_nil (covers_pure _) fun properties hproperties => covers_made ?_
    obtain ⟨m, n, hsame⟩ := hproperties
    obtain rfl := Except.ok.inj (Prod.mk.inj hsame).1
    exact AnnotationSchema.exists_make (Nat.le_succ_of_le hnone)
  · refine covers_bind_nil (covers_addProperties hread c _ _ _ _) fun properties hproperties => ?_
    obtain ⟨m, n, hadded⟩ := hproperties
    have hfew := countDefaults_addProperties hadded
    exact covers_made (AnnotationSchema.exists_make (Nat.le_trans hfew (Nat.add_le_add_left hnone 1)))

end Covers

end Reflection

end Docblock
