import Docblock.Proofs.Lookup.Answers
import Docblock.Proofs.Lookup.Occurrences
import Docblock.Proofs.Schema.Tidy

/-!
# What an annotation name stands for

The name of an annotation stands for a class, found in namespaces, through imports, in the current
namespace, or as it is written, or for none. Rules of the settings and the class itself decide
whether the annotation is passed over, refused, or read with the schema of the class. The memory
takes no part in this, as long as it knows only what is so.
-/

namespace Docblock

open Reflection

/-- The class that the name of an annotation stands for, as it is found. What is qualified or
imported stands for a class whether or not that is registered. -/
def Settings.annotationClass? (s : Settings) (registry : Registry) (written : String) :
    Option String :=
  if ClassName.isQualified written then some (ClassName.registered written)
  else if !s.namespaces.isEmpty then registry.firstExisting? (s.candidates written)
  else
    match s.imported? written with
    | some imported => some imported
    | none =>
      if s.ignoredNames.contains written then none
      else registry.firstExisting? ((s.localCandidate? written).toList ++ [written])

def Registry.isAnnotation (registry : Registry) (className : String) : Bool :=
  (SchemaTable.standard.find? className).isSome ||
    (registry.describe? className).any fun c => Text.occursIn marker c.doc

inductive Verdict where
  /-- The annotation yields nothing. -/
  | passedOver
  | refused (e : AnnotationError)
  /-- The annotation is read with the schema of a class. -/
  | read (className : String)
deriving DecidableEq

def Verdict.answer (schemaOf : String → Except AnnotationError (Option AnnotationSchema)) :
    Verdict → Except AnnotationError (Option AnnotationSchema)
  | passedOver => .ok none
  | refused e => .error e
  | read className => schemaOf className

/-- What becomes of an annotation of this name. -/
def Settings.verdict (s : Settings) (registry : Registry) (context written : String) : Verdict :=
  match s.annotationClass? registry written with
  | none => if s.isIgnored written then .passedOver else .refused (.notImported written context)
  | some found =>
    let className := ClassName.bare found
    if !registry.exists? className then .refused (.classNotFound className context)
    else if registry.isAnnotation className then .read className
    else if s.ignoreNotImported || s.ignoredNames.contains written then .passedOver
    else .refused (.notMarked className written context)

variable {registry : Registry} {s : Settings} {written className : String}

/-- Only a qualified name and an import stand for a class that is not registered. -/
theorem Settings.qualified_or_imported {found : String}
    (h : s.annotationClass? registry written = some found)
    (hmissing : registry.exists? (ClassName.bare found) = false) :
    ClassName.isQualified written = true ∨
      s.namespaces = [] ∧ s.imported? written = some found := by
  have hexists {names : List String} (hfirst : registry.firstExisting? names = some found) :
      registry.exists? (ClassName.bare found) = true :=
    List.find?_some (p := fun name => registry.exists? (ClassName.bare name)) hfirst
  unfold annotationClass? at h
  split at h
  · next hqualified => exact .inl hqualified
  · split at h
    · rw [hexists h] at hmissing
      cases hmissing
    · next hnone =>
      cases himported : s.imported? written with
      | some imported =>
        rw [himported] at h
        exact .inr ⟨by simpa using hnone, h⟩
      | none =>
        rw [himported] at h
        dsimp only at h
        split at h
        · cases h
        · rw [hexists h] at hmissing
          cases hmissing

/-- The class that an annotation is read with is the one that its name stands for. -/
theorem Settings.exists_of_verdict {context : String}
    (h : s.verdict registry context written = .read className) :
    ∃ found, s.annotationClass? registry written = some found ∧
      ClassName.bare found = className ∧ registry.isAnnotation className = true := by
  unfold verdict at h
  split at h
  · split at h <;> cases h
  · next found hfound =>
    dsimp only at h
    split at h
    · cases h
    · split at h
      · next hmarked =>
        obtain rfl := Verdict.read.inj h
        exact ⟨found, hfound, rfl, hmarked⟩
      · split at h <;> cases h

/-- Only the schemas of classes with annotations are asked for. -/
theorem Settings.isAnnotation_of_verdict {context : String}
    (h : s.verdict registry context written = .read className) :
    ClassName.bare className = className ∧ registry.isAnnotation className = true := by
  obtain ⟨found, -, rfl, hmarked⟩ := exists_of_verdict h
  exact ⟨ClassName.bare_bare found, hmarked⟩

namespace Reflection

theorem isPlain_of_not_isAnnotation (h : registry.isAnnotation className = false) :
    SchemaTable.standard.find? className = none ∧ IsPlain registry className := by
  obtain ⟨hstandard, hmarked⟩ := Bool.or_eq_false_iff.1 h
  refine ⟨by simpa using hstandard, fun c hc => ?_⟩
  rw [hc] at hmarked
  exact hmarked

theorem isAnnotation_of_eq_true (h : registry.isAnnotation className = true) :
    IsAnnotation registry className := by
  obtain hstandard | hmarked := Bool.or_eq_true_iff.1 h
  · exact .inl (Option.isSome_iff_exists.1 hstandard)
  · obtain ⟨c, hc, hdoc⟩ := (Option.any_eq_true _ _).1 hmarked
    exact .inr ⟨c, hc, hdoc⟩

/-- From scratch, what is found for a class with annotations is a schema or an error. -/
theorem schemaFromScratch_ne_none {settings : Settings} {opened : List String}
    (h : registry.isAnnotation className = true) :
    schemaFromScratch registry settings opened className ≠ .ok none := by
  intro hnone
  obtain ⟨schema, hschema⟩ | ⟨c, hc, hmarked⟩ := isAnnotation_of_eq_true h
  · rw [schemaFromScratch_standard hschema] at hnone
    cases hnone
  · rw [isPlain_of_schemaFromScratch hnone c hc] at hmarked
    cases hmarked

end Reflection

namespace Recall

theorem gives_resolveAnnotation? (hname : ClassName.isQualified written = false) :
    Gives registry (resolveAnnotation? registry s written)
      (s.annotationClass? registry written) := by
  unfold resolveAnnotation? Settings.annotationClass?
  rw [hname, if_neg Bool.false_ne_true]
  split
  · exact gives_firstExisting? _
  · cases s.imported? written with
    | some imported => exact gives_pure _
    | none =>
      dsimp only
      split
      · exact gives_pure _
      · exact gives_firstExisting? _

end Recall

theorem ClassName.bare_registered (name : String) : bare (registered name) = bare name := by
  unfold registered
  split
  · next rest hname =>
    unfold bare Text.trimStart
    rw [String.toList_ofList, hname, List.dropWhile_cons_of_pos (by rfl)]
  · rfl

/-- Which class a name stands for does not depend on what is remembered. -/
theorem Scope.answers_classNamed (scope : Scope) (written : String) :
    (scope.classNamed written).Answers scope.registry
      (match scope.settings.annotationClass? scope.registry written with
        | some found => .ok (some (ClassName.bare found))
        | none =>
          if scope.settings.isIgnored written then .ok none
          else .error (.notImported written scope.context)) := by
  unfold Scope.classNamed
  cases hqualified : ClassName.isQualified written with
  | true =>
    have hfound : scope.settings.annotationClass? scope.registry written =
        some (ClassName.registered written) := by
      unfold Settings.annotationClass?
      rw [hqualified, if_pos rfl]
    rw [hfound, if_pos rfl]
    dsimp only
    rw [ClassName.bare_registered]
    exact Lookup.answers_pure _
  | false =>
    rw [if_neg Bool.false_ne_true]
    refine Lookup.answers_bind (Lookup.answers_recall
      (Recall.gives_resolveAnnotation? (s := scope.settings) hqualified)) (g := fun found =>
        match found with
        | some found => .ok (some (ClassName.bare found))
        | none =>
          if scope.settings.isIgnored written then .ok none
          else .error (.notImported written scope.context)) fun found _ => ?_
    cases found with
    | some found => exact Lookup.answers_pure _
    | none =>
      dsimp only
      split
      · exact Lookup.answers_pure _
      · exact Lookup.answers_throw _

theorem Scope.answers_classNamed_found (scope : Scope) {written found : String}
    (h : scope.settings.annotationClass? scope.registry written = some found) :
    (scope.classNamed written).Answers scope.registry (.ok (some (ClassName.bare found))) := by
  have hanswers := scope.answers_classNamed written
  rw [h] at hanswers
  exact hanswers

theorem Scope.answers_classNamed_missing (scope : Scope) {written : String}
    (h : scope.settings.annotationClass? scope.registry written = none) :
    (scope.classNamed written).Answers scope.registry
      (if scope.settings.isIgnored written then .ok none
        else .error (.notImported written scope.context)) := by
  have hanswers := scope.answers_classNamed written
  rw [h] at hanswers
  exact hanswers

namespace Reading

/-- An annotation whose name is read gives what comes of its name. -/
theorem result_object_named {scope : Scope} {target : Target} {value : Reading (Option Value)}
    {tokens : List Token} {written : String} {i : Nat} {behind : Window} {m k : Memory}
    (hi : i < tokens.length) (hkind : tokens[i].kind = .atSign)
    (hname : (identifier scope).result (.atIndex tokens (i + 1)) m = (.ok (written, behind), k)) :
    (object scope target value).result (.atIndex tokens i) m =
      match (scope.schemaNamed written).result k with
      | (.ok none, n) => (.ok (none, behind), n)
      | (.ok (some schema), n) => (objectNamed scope target value written schema).result behind n
      | (.error e, n) => (.error e, n) := by
  have hlook : (Window.atIndex tokens i).lookahead = some tokens[i] := by
    unfold Window.lookahead
    rw [Window.ahead_atIndex hi]
    rfl
  have hexpect : (expect scope .atSign).result (.atIndex tokens i) m =
      (.ok (tokens[i], .atIndex tokens (i + 1)), m) := by
    unfold expect expectAny
    rw [result_get_bind, hlook]
    dsimp only
    rw [hkind, ← Window.advance_atIndex hi]
    rfl
  rw [object_eq, result_bind_ok hexpect, result_bind_ok hname, result_bind, result_lookup]
  cases (scope.schemaNamed written).result k with
  | mk outcome n =>
    cases outcome with
    | error e => rfl
    | ok found => cases found <;> rfl

end Reading

end Docblock
