import Docblock.Proofs.Lookup.Relation

/-!
# Related readers of values, annotations and schemas

Whatever is read in two scopes whose sources of schemas are related, and whose registries are twins,
is related again. Only bare class names are ever looked up, so the sources need to agree on those
alone.
-/

namespace Docblock

theorem ClassName.bare_eq_self {name : String} (h : name.toList.head? ≠ some '\\') :
    ClassName.bare name = name := by
  unfold ClassName.bare Text.trimStart
  cases hcs : name.toList with
  | nil => rw [List.dropWhile_nil, ← hcs, String.ofList_toList]
  | cons c cs =>
    have hc : ClassName.isSeparator c = false := by
      rw [hcs] at h
      simpa [ClassName.isSeparator] using h
    rw [List.dropWhile_cons_of_neg (by simp [hc]), ← hcs, String.ofList_toList]

theorem ClassName.head?_bare (name : String) : (ClassName.bare name).toList.head? ≠ some '\\' := by
  unfold ClassName.bare Text.trimStart
  rw [String.toList_ofList]
  intro h
  have hhead := List.head?_dropWhile_not ClassName.isSeparator name.toList
  rw [h] at hhead
  exact absurd hhead (by decide)

@[simp] theorem ClassName.bare_bare (name : String) :
    ClassName.bare (ClassName.bare name) = ClassName.bare name :=
  ClassName.bare_eq_self (ClassName.head?_bare name)

/-- The class of an annotation is looked up without separators in front. -/
theorem Reading.bare_of_annotationClass? {scope : Scope} {written className : String}
    (h : (annotationClass? scope written).Returns (some className)) :
    ClassName.bare className = className := by
  obtain ⟨w, m, v, n, h⟩ := h
  unfold annotationClass? at h
  split at h
  · simp only [result_pure, Prod.mk.injEq, Except.ok.injEq, Option.some.injEq] at h
    rw [← h.1.1, ClassName.bare_bare]
  · rw [result_bind, result_recall] at h
    dsimp only at h
    split at h
    · simp only [result_pure, Prod.mk.injEq, Except.ok.injEq, Option.some.injEq] at h
      rw [← h.1.1, ClassName.bare_bare]
    · split at h
      · simp at h
      · simp at h

def Scope.askSchema (scope : Scope) (className : String) :
    Lookup (Option (Option AnnotationSchema)) := do
  if ← classExists scope.registry className then return some (← scope.schemaOf className)
  else return none

/-- The schema of a class is looked for only if the class exists. -/
theorem Reading.annotationSchema?_eq (scope : Scope) (written className : String) :
    Reading.annotationSchema? scope written className = (do
      match ← scope.askSchema className with
      | none => throw (.classNotFound className scope.context)
      | some (some schema) => return some schema
      | some none =>
        if scope.settings.ignoreNotImported || scope.settings.ignoredNames.contains written then
          return none
        else throw (.notMarked className written scope.context)) := by
  refine StateT.ext fun w => ?_
  have hlift {α : Type} (x : Lookup α) : (liftM x : Reading α).run w = x >>= fun a => pure (a, w) :=
    rfl
  have hexists : (liftM (classExists scope.registry className) : Reading Bool).run w =
      (liftM (classExists scope.registry className) : Lookup Bool) >>= fun a => pure (a, w) := rfl
  unfold Reading.annotationSchema? Scope.askSchema
  rw [StateT.run_bind, StateT.run_bind, hlift, hexists, bind_assoc, bind_assoc, bind_assoc]
  refine bind_congr fun present => ?_
  rw [pure_bind]
  cases present with
  | false => rfl
  | true =>
    simp only [Bool.not_true, Bool.false_eq_true, if_false, if_true, StateT.run_bind, hlift,
      bind_assoc, pure_bind]
    refine bind_congr fun found => ?_
    cases found <;> rfl

namespace LookupRelation

variable (scope : Scope) (source : String → Lookup (Option AnnotationSchema))
  (r : LookupRelation scope.registry)

theorem reads_literal (v : Value) : r.Reads (Reading.literal v) (Reading.literal v) :=
  r.reads_seq (reads_skip scope r) fun _ => r.reads_pure _

variable {r} {twin : Registry} (ht : r.Twin twin)

include ht

theorem reads_valueWith {collection collection' : Reading (OrderedMap Value)}
    {object object' : Reading (Option Annotation)} (hc : r.Reads collection collection')
    (ho : r.Reads object object') :
    r.Reads (Reading.valueWith scope collection object)
      (Reading.valueWith (scope.under twin source) collection' object') := by
  have hconstant : r.Reads (return some (← Reading.constant scope))
      (return some (← Reading.constant (scope.under twin source))) :=
    r.reads_seq (reads_constant scope source ht) fun v => r.reads_pure _
  have hnone : r.Reads (Reading.unexpected scope .value : Reading (Option Value))
      (Reading.unexpected (scope.under twin source) .value) :=
    reads_unexpected scope twin source r _
  unfold Reading.valueWith
  refine r.reads_seq r.reads_get fun w => ?_
  cases w.lookahead with
  | none => exact hnone
  | some t =>
    dsimp only
    cases t.kind with
    | openBrace => exact r.reads_seq hc fun items => r.reads_pure _
    | atSign => exact r.reads_seq ho fun a => r.reads_pure _
    | identifier => exact hconstant
    | qualifiedName => exact hconstant
    | string => exact reads_literal scope r _
    | integer => exact reads_literal scope r _
    | float =>
      cases Decimal.readFloat? t.text.toList with
      | some x => exact reads_literal scope r _
      | none => exact hnone
    | trueWord => exact reads_literal scope r _
    | falseWord => exact reads_literal scope r _
    | nullWord => exact reads_literal scope r _
    | separator | openParen | closeParen | closeBrace | comma | colon | equals | other =>
      exact hnone

theorem reads_entryKey :
    r.Reads (Reading.entryKey scope) (Reading.entryKey (scope.under twin source)) := by
  unfold Reading.entryKey
  refine r.reads_seq r.reads_get fun w => ?_
  split
  · refine r.reads_seq (reads_constant scope source ht) fun v => ?_
    cases v.key? with
    | some key => exact r.reads_pure key
    | none => exact r.reads_throw _
  · exact r.reads_seq (reads_expectAny scope twin source r _) fun t => r.reads_pure _

variable {value other : Reading (Option Value)}

theorem reads_entry (h : r.Reads value other) :
    r.Reads (Reading.entry scope value) (Reading.entry (scope.under twin source) other) := by
  unfold Reading.entry
  refine r.reads_seq r.reads_get fun w => ?_
  split
  · refine r.reads_seq (reads_entryKey scope source ht) fun key => ?_
    refine r.reads_seq (reads_expectAny scope twin source r _) fun _ => ?_
    exact r.reads_seq h fun v => r.reads_pure _
  · exact r.reads_seq h fun v => r.reads_pure _

theorem reads_collection (h : r.Reads value other) :
    r.Reads (Reading.collection scope value)
      (Reading.collection (scope.under twin source) other) := by
  unfold Reading.collection
  refine r.reads_seq (reads_expectAny scope twin source r _) fun _ => ?_
  refine r.reads_seq (reads_isNext scope r _) fun closed => ?_
  split
  · exact r.reads_seq (reads_skip scope r) fun _ => r.reads_pure _
  · refine r.reads_seq (reads_items scope r _ (reads_entry scope source ht h)) fun entries => ?_
    exact r.reads_seq (reads_expectAny scope twin source r _) fun _ => r.reads_pure _

omit ht in
theorem reads_argument (h : r.Reads value other) :
    r.Reads (Reading.argument scope value) (Reading.argument (scope.under twin source) other) := by
  unfold Reading.argument
  refine r.reads_seq r.reads_get fun w => ?_
  split
  · refine r.reads_seq (reads_expectAny scope twin source r _) fun name => ?_
    refine r.reads_seq (reads_expectAny scope twin source r _) fun _ => ?_
    exact r.reads_seq h fun v => r.reads_pure _
  · exact r.reads_seq h fun v => r.reads_pure _

omit ht in
theorem reads_arguments (h : r.Reads value other) :
    r.Reads (Reading.arguments scope value)
      (Reading.arguments (scope.under twin source) other) := by
  have hclose (given : List (Option Argument)) :
      r.Reads
        (do let _ ← Reading.expect scope .closeParen
            return Argument.fold (given.filterMap id))
        (do let _ ← Reading.expect (scope.under twin source) .closeParen
            return Argument.fold (given.filterMap id)) :=
    r.reads_seq (reads_expectAny scope twin source r _) fun _ => r.reads_pure _
  unfold Reading.arguments
  refine r.reads_seq (reads_isNext scope r _) fun present => ?_
  split
  · exact r.reads_pure _
  · refine r.reads_seq (reads_skip scope r) fun _ => ?_
    refine r.reads_seq (reads_isNext scope r _) fun closed => ?_
    split
    · exact r.reads_seq (r.reads_pure []) fun given => hclose given
    · refine r.reads_seq (reads_items scope r _ (reads_argument scope source h)) fun given => ?_
      exact hclose given

theorem reads_annotationClass? (written : String) :
    r.Reads (Reading.annotationClass? scope written)
      (Reading.annotationClass? (scope.under twin source) written) := by
  unfold Reading.annotationClass?
  split
  · exact r.reads_pure _
  · have hresolved : r.Reads
        (liftM (resolveAnnotation? scope.registry scope.settings written) :
          Reading (Option String))
        (liftM (resolveAnnotation? twin scope.settings written)) := by
      rw [ht.resolveAnnotation_eq]
      exact reads_recall scope r (r.related_resolveAnnotation? _ _)
    refine r.reads_seq hresolved fun found => ?_
    cases found with
    | some resolved => exact r.reads_pure _
    | none =>
      by_cases h : scope.settings.isIgnored written
      · simp only [Scope.under, h, if_true]
        exact r.reads_pure _
      · simp only [Scope.under, h, if_false, Bool.false_eq_true]
        exact r.reads_throw _

theorem related_askSchema {name : String} (h : r.Related (scope.schemaOf name) (source name)) :
    r.Related (scope.askSchema name) ((scope.under twin source).askSchema name) := by
  unfold Scope.askSchema Scope.under
  rw [ht.classExists_eq]
  refine r.related_bind (r.related_exists name) fun present _ => ?_
  cases present with
  | false => exact r.related_pure none
  | true => exact r.related_bind h fun found _ => r.related_pure (some found)

variable (hs : ∀ name, r.Related (scope.askSchema (ClassName.bare name))
  ((scope.under twin source).askSchema (ClassName.bare name)))

include hs

omit ht in
theorem reads_annotationSchema? (written className : String)
    (hbare : ClassName.bare className = className) :
    r.Reads (Reading.annotationSchema? scope written className)
      (Reading.annotationSchema? (scope.under twin source) written className) := by
  have hschema : r.Related (scope.askSchema className)
      ((scope.under twin source).askSchema className) := hbare ▸ hs className
  rw [Reading.annotationSchema?_eq, Reading.annotationSchema?_eq]
  refine r.reads_seq (r.reads_lookup hschema) fun found => ?_
  cases found with
  | none => exact r.reads_throw _
  | some found =>
    cases found with
    | some schema => exact r.reads_pure _
    | none =>
      by_cases hpassed : (scope.settings.ignoreNotImported ||
          scope.settings.ignoredNames.contains written) = true
      · simp only [Scope.under, hpassed, if_true]
        exact r.reads_pure _
      · simp only [Scope.under, hpassed, if_false, Bool.false_eq_true]
        exact r.reads_throw _

omit hs in
theorem reads_objectOf (schema : AnnotationSchema) (place : Place) (values : OrderedMap Value) :
    r.Reads (liftM (schema.objectOf scope.registry place values) : Reading Annotation)
      (liftM (schema.objectOf twin place values)) :=
  r.reads_lookup (ht.objects schema place values)

theorem reads_object (target : Target) (h : r.Reads value other) :
    r.Reads (Reading.object scope target value)
      (Reading.object (scope.under twin source) target other) := by
  have hmake (schema : AnnotationSchema) (written : String) : r.Reads
      (do let values ← Reading.arguments scope value
          return some (← schema.objectOf scope.registry ⟨written, scope.context⟩ values))
      (do let values ← Reading.arguments (scope.under twin source) other
          return some (← schema.objectOf twin ⟨written, scope.context⟩ values)) :=
    r.reads_seq (reads_arguments scope source h) fun values =>
      r.reads_seq (reads_objectOf scope ht schema _ values) fun a => r.reads_pure _
  unfold Reading.object
  refine r.reads_seq (reads_expectAny scope twin source r _) fun _ => ?_
  refine r.reads_seq (reads_identifier scope twin source r) fun written => ?_
  refine r.reads_bind (reads_annotationClass? scope source ht _) fun found hfound => ?_
  cases found with
  | none => exact r.reads_pure _
  | some className =>
    have hbare := Reading.bare_of_annotationClass? hfound
    refine r.reads_seq (reads_annotationSchema? scope source hs written className hbare) ?_
    intro schema
    cases schema with
    | none => exact r.reads_pure _
    | some schema =>
      dsimp only
      split
      · exact r.reads_seq (r.reads_throw _) fun _ => hmake schema written
      · exact hmake schema written

theorem reads_value (room : Nat) :
    r.Reads (Reading.value scope room) (Reading.value (scope.under twin source) room) := by
  induction room with
  | zero =>
    exact reads_valueWith scope source ht (reads_unexpected scope twin source r _)
      (reads_unexpected scope twin source r _)
  | succ room ih =>
    exact reads_valueWith scope source ht (reads_collection scope source ht ih)
      (reads_object scope source ht hs .nested ih)

theorem reads_annotations (target : Target) (steps : Nat) :
    r.Reads (Reading.annotations scope target steps)
      (Reading.annotations (scope.under twin source) target steps) := by
  induction steps with
  | zero => exact r.reads_pure _
  | succ steps ih =>
    unfold Reading.annotations
    refine r.reads_seq r.reads_get fun w => ?_
    split
    · exact r.reads_pure _
    · split
      · refine r.reads_seq (reads_object scope source ht hs target
          (reads_value scope source ht hs _)) fun found => ?_
        exact r.reads_seq ih fun rest => r.reads_pure _
      · exact r.reads_seq (reads_skip scope r) fun _ => ih

/-- Doc comments are read alike in two scopes that look for schemas alike. -/
theorem related_readDoc_asking (target : Target) (input : String) :
    r.Related (readDoc scope target input) (readDoc (scope.under twin source) target input) := by
  unfold readDoc
  cases DocText.body? input with
  | none => exact r.related_pure _
  | some body =>
    exact r.related_bind (reads_annotations scope source ht hs target _ _) fun _ _ =>
      r.related_pure _

omit hs in
/-- Doc comments are read alike over twin registries if the schemas are related. -/
theorem related_readDoc_under
    (hsource : ∀ name, r.Related (scope.schemaOf (ClassName.bare name))
      (source (ClassName.bare name))) (target : Target) (input : String) :
    r.Related (readDoc scope target input) (readDoc (scope.under twin source) target input) :=
  related_readDoc_asking scope source ht
    (fun name => related_askSchema scope source ht (hsource name)) target input

omit ht hs in
variable (r) in
theorem related_readDoc
    (hsource : ∀ name, r.Related (scope.schemaOf (ClassName.bare name))
      (source (ClassName.bare name))) (target : Target) (input : String) :
    r.Related (readDoc scope target input) (readDoc (scope.withSource source) target input) :=
  related_readDoc_under scope source r.twin_self hsource target input

end LookupRelation

namespace LookupRelation

open Reflection

variable {registry : Registry} (r : LookupRelation registry)

/-- A schema that is made or not ends two related readings of its class alike. -/
theorem related_made (made : Except SchemaError AnnotationSchema) : r.Related
    (match made with
      | .ok schema => return schema
      | .error e => throw (.schema e))
    (match made with
      | .ok schema => return schema
      | .error e => throw (.schema e)) := by
  cases made with
  | ok schema => exact r.related_pure schema
  | error e => exact r.related_throw (.schema e)

variable {read other : DocReader} (h : ∀ context target doc,
    r.Related (read context target doc) (other context target doc))

include h

theorem related_enumerationOf (c : ClassDeclaration) (p : PropertyDeclaration) :
    r.Related (enumerationOf read c p) (enumerationOf other c p) := by
  unfold enumerationOf
  split
  · exact r.related_pure _
  · refine r.related_bind (h _ _ _) fun annotations _ => ?_
    cases Record.enumeration.first? annotations with
    | ok record => exact r.related_pure _
    | error e => exact r.related_throw _

theorem related_propertySchema (c : ClassDeclaration) (declared : List PropertySchema)
    (isDefault : Bool) (p : PropertyDeclaration) :
    r.Related (propertySchema read c declared isDefault p)
      (propertySchema other c declared isDefault p) :=
  r.related_bind (related_enumerationOf r h c p) fun _ _ => r.related_pure _

theorem related_addProperties (c : ClassDeclaration) (declared : List PropertySchema)
    (isFirst : Bool) (properties : List PropertySchema) (rest : List PropertyDeclaration) :
    r.Related (addProperties read c declared isFirst properties rest)
      (addProperties other c declared isFirst properties rest) := by
  induction rest generalizing isFirst properties with
  | nil => exact r.related_pure _
  | cons p rest ih =>
    exact r.related_bind (related_propertySchema r h c declared isFirst p) fun property _ =>
      ih false _

/-- The schema of a class is read alike with two related readers of doc comments. -/
theorem related_schemaOfClass (c : ClassDeclaration) :
    r.Related (schemaOfClass read c) (schemaOfClass other c) := by
  unfold schemaOfClass
  refine r.related_bind (h _ _ _) fun annotations _ => ?_
  refine r.related_bind (r.related_except _) fun draft _ => ?_
  dsimp only
  split
  · exact r.related_bind (r.related_pure _) fun properties _ => related_made r _
  · exact r.related_bind (related_addProperties r h c _ _ _ _) fun properties _ => related_made r _

end LookupRelation

end Docblock
