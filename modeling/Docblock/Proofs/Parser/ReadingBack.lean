import Docblock.Proofs.Object.SingleArgument
import Docblock.Proofs.Parser.Described
import Docblock.Proofs.Parser.Writing
import Docblock.Proofs.Value.Rereading

/-!
# Reading a written annotation

The name of a written annotation leads to the schema of its class. What follows are the arguments:
they are one named value, or reading them fails because the value goes too deep.
-/

namespace Docblock

open Reading Grammar

namespace Reading

variable {α β : Type} {scope : Scope} {w u v : Window}

def Reaches (scope : Scope) (x : Reading α) (w : Window) (y : Reading α) (u : Window) : Prop :=
  ∀ m, m.Knows scope.registry → ∃ n, n.Knows scope.registry ∧ x.result w m = y.result u n

theorem reaches_bind {x : Reading β} {f : β → Reading α} {b : β} {y : Reading α}
    (hx : Takes scope x w b u) (hf : Reaches scope (f b) u y v) :
    Reaches scope (x >>= f) w y v := by
  intro m hm
  obtain ⟨n, hn, hrun⟩ := hx m hm
  obtain ⟨o, ho, hlast⟩ := hf n hn
  refine ⟨o, ho, ?_⟩
  rw [result_bind_ok hrun, hlast]

theorem Reaches.refl (x : Reading α) (w : Window) : Reaches scope x w x w :=
  fun m hm => ⟨m, hm, rfl⟩

theorem Reaches.takes {x y : Reading α} {a : α} (h : Reaches scope x w y u)
    (hy : Takes scope y u a v) : Takes scope x w a v := by
  intro m hm
  obtain ⟨n, hn, hrun⟩ := h m hm
  obtain ⟨o, ho, hlast⟩ := hy n hn
  exact ⟨o, ho, hrun.trans hlast⟩

theorem Reaches.fails {x y : Reading α} (h : Reaches scope x w y u) (hy : Fails scope y u) :
    Fails scope x w := by
  intro m hm
  obtain ⟨n, hn, hrun⟩ := h m hm
  obtain ⟨e, o, hlast, he⟩ := hy n hn
  exact ⟨e, o, hrun.trans hlast, he⟩

def objectWith (scope : Scope) (schema : AnnotationSchema) (written : String)
    (value : Reading (Option Value)) : Reading (Option Annotation) := do
  let values ← arguments scope value
  return some (← schema.objectOf scope.registry ⟨written, scope.context⟩ values)

/-- In this scope the class exists, has the schema, and may stand on the target. -/
structure Admits (scope : Scope) (target : Target) (className : String) (schema : AnnotationSchema) :
    Prop where
  present : scope.registry.exists? className = true
  described : ∀ m, (scope.schemaOf className).result m = (.ok (some schema), m)
  allowed : target.isEmpty = true ∨ schema.target.intersects target = true

variable {target : Target} {className : String} {schema : AnnotationSchema}

theorem takes_annotationSchema? (h : Admits scope target className schema) (written : String) :
    Takes scope (annotationSchema? scope written className) w (some schema) w := by
  have hexists : Takes scope (liftM (classExists scope.registry className)) w true w := by
    rw [← h.present]
    exact takes_recall (Recall.gives_classExists className)
  refine takes_bind hexists ?_
  have hschema : Takes scope (liftM (scope.schemaOf className)) w (some schema) w := by
    intro m hm
    refine ⟨m, hm, ?_⟩
    rw [result_lookup, h.described m]
  exact takes_bind hschema (takes_pure _)

/-- Behind its fully qualified name an annotation is the object of its arguments. -/
theorem reaches_objectWith (h : Admits scope target className schema)
    (hbare : ClassName.bare ("\\" ++ className) = className) {behind : Option Token}
    {sign name opener : Token} {rest : List Token} (hsign : sign.kind = .atSign)
    (hname : name.kind = .qualifiedName) (htext : name.text = "\\" ++ className)
    (hopener : opener.kind = .openParen) (value : Reading (Option Value)) :
    Reaches scope (object scope target value) ⟨behind, sign :: name :: opener :: rest⟩
      (objectWith scope schema ("\\" ++ className) value) ⟨some name, opener :: rest⟩ := by
  have hends : EndsName (opener :: rest) := by
    intro t ht
    obtain rfl : opener = t := by simpa using ht
    rw [hopener]
    exact TokenKind.noConfusion
  have hidentifier : Takes scope (identifier scope) ⟨some sign, name :: opener :: rest⟩
      ("\\" ++ className) ⟨some name, opener :: rest⟩ := by
    have htaken := @takes_identifier scope (some sign) name [] (opener :: rest) ""
      (by rw [hname]; rfl)
      (NameTail.nil name) (separatorFollows_of_endsName hends _)
    rw [htext, String.append_empty] at htaken
    exact htaken
  have hqualified : ClassName.isQualified ("\\" ++ className) = true := by
    simp [ClassName.isQualified]
  refine reaches_bind (takes_expect hsign) (reaches_bind hidentifier ?_)
  have hclass : Takes scope (annotationClass? scope ("\\" ++ className))
      ⟨some name, opener :: rest⟩ (some className) ⟨some name, opener :: rest⟩ := by
    unfold annotationClass?
    rw [hqualified, hbare]
    exact takes_pure _
  refine reaches_bind hclass (reaches_bind (takes_annotationSchema? h _) ?_)
  have hallowed : (!target.isEmpty && !schema.target.intersects target) = false := by
    obtain htarget | htarget := h.allowed <;> simp [htarget]
  dsimp only
  rw [hallowed]
  exact Reaches.refl _ _

variable {q : PropertySchema} {v : Value} {opener key sep closer : Token} {used : List Token}
  {behind : Option Token} {room : Nat}

theorem takes_objectWith (hs : schema.WellFormed) (hfree : schema.IsFree q) (hsole : schema.IsSole q)
    (hproperty : Key.ofString q.name = .text q.name) (hv : v.IsWritable) (hroom : v.nesting ≤ room)
    (hopener : opener.kind = .openParen) (hkey : key.kind = .identifier) (htext : key.text = q.name)
    (hsep : sep.kind = .equals) (hused : v.Spells used) (hcloser : closer.kind = .closeParen)
    (written : String) :
    Takes scope (objectWith scope schema written (value scope room))
      ⟨behind, opener :: key :: sep :: (used ++ [closer])⟩
      (some ((schema.blank scope.registry).set q.name v.reread)) ⟨some closer, []⟩ := by
  have hphrase : Arguments (Grammar.Value scope room)
      (opener :: ((key :: sep :: used) ++ [closer])) (Argument.fold [.named key.text v.reread]) :=
    .arguments hopener (.last (.named hkey hsep (Value.value_of_spells v hv used hused room hroom)))
      hcloser
  have hlast : lastPassed behind (opener :: ((key :: sep :: used) ++ [closer])) = some closer := by
    rw [lastPassed, lastPassed_append]
    rfl
  have htaken : Takes scope (arguments scope (value scope room))
      ⟨behind, opener :: key :: sep :: (used ++ [closer])⟩ (Argument.fold [.named q.name v.reread])
      ⟨some closer, []⟩ := by
    have hargs := @takes_arguments scope behind _ _ (takes_value room) (starts_value scope room)
      (unassigned_value room) _ [] _ hphrase
    rw [List.append_nil, hlast, htext] at hargs
    exact hargs
  refine takes_bind htaken ?_
  rw [AnnotationSchema.objectOf_single hs hfree hsole hproperty]
  exact takes_pure _

theorem fails_objectWith (hv : v.IsWritable) (hroom : room < v.nesting)
    (hopener : opener.kind = .openParen) (hkey : key.kind = .identifier)
    (hsep : sep.kind = .equals) (hused : v.Spells used) (hcloser : closer.kind = .closeParen)
    (written : String) :
    Fails scope (objectWith scope schema written (value scope room))
      ⟨behind, opener :: key :: sep :: (used ++ [closer])⟩ := by
  have hsome : key.kind ≠ .closeParen := by
    rw [hkey]
    exact TokenKind.noConfusion
  have hglimpse : (Window.glimpse ⟨some opener, key :: sep :: (used ++ [closer])⟩).any
      (fun t => t.kind == .equals) = true := by
    change (sep.kind == .equals) = true
    simpa using hsep
  have hends : Ends [closer] := ends_cons (by rw [hcloser]; rfl)
  refine fails_bind ?_
  refine fails_takes_bind (takes_isNext hopener) ?_
  refine fails_takes_bind takes_skip ?_
  rw [Window.advance_cons]
  refine fails_takes_bind (takes_isNext_of_ne hsome) ?_
  refine fails_bind (fails_bind (fails_get_bind ?_))
  rw [hglimpse]
  refine fails_takes_bind (takes_expect hkey) ?_
  refine fails_takes_bind (takes_expect hsep) ?_
  exact fails_bind (Value.fails_value v hv used [closer] hused hends room hroom (some sep))

/-- The only annotation of a text is all that is read. -/
theorem takes_annotations {a : Annotation} {sign name : Token} {rest : List Token}
    (hsign : sign.kind = .atSign) (hadjacent : sign.isAdjacent name = true)
    (hname : name.kind = .qualifiedName) {before : Option Token}
    (h : Takes scope (object scope target (value scope maxNesting)) ⟨none, sign :: name :: rest⟩
      (some a) ⟨before, []⟩) :
    Takes scope (annotations scope target (sign :: name :: rest).length)
      ⟨none, sign :: name :: rest⟩ [a] ⟨before, []⟩ := by
  have hpart : name.kind.isClassPart = true := by rw [hname]; rfl
  have hstarts := startsAnnotation_of_signed hsign hadjacent hpart rest
  have hnone (steps : Nat) :
      Takes scope (annotations scope target steps) ⟨before, []⟩ [] ⟨before, []⟩ := by
    cases steps with
    | zero => exact takes_pure []
    | succ steps => exact takes_get_bind (takes_pure [])
  refine takes_get_bind ?_
  dsimp only [List.isEmpty_cons]
  rw [hstarts]
  exact takes_bind h (takes_bind (hnone _) (takes_pure _))

theorem fails_annotations {sign name : Token} {rest : List Token}
    (hsign : sign.kind = .atSign) (hadjacent : sign.isAdjacent name = true)
    (hname : name.kind = .qualifiedName)
    (h : Fails scope (object scope target (value scope maxNesting))
      ⟨none, sign :: name :: rest⟩) :
    Fails scope (annotations scope target (sign :: name :: rest).length)
      ⟨none, sign :: name :: rest⟩ := by
  have hpart : name.kind.isClassPart = true := by rw [hname]; rfl
  have hstarts := startsAnnotation_of_signed hsign hadjacent hpart rest
  refine fails_get_bind ?_
  dsimp only [List.isEmpty_cons]
  rw [hstarts]
  exact fails_bind h

variable {tokens : List Token}

theorem takes_spelled (h : Admits scope target className schema)
    (hbare : ClassName.bare ("\\" ++ className) = className) (hs : schema.WellFormed)
    (hfree : schema.IsFree q) (hsole : schema.IsSole q)
    (hproperty : Key.ofString q.name = .text q.name) (hv : v.IsWritable)
    (hdepth : v.nesting ≤ maxNesting) (htokens : SpellsAnnotation className q.name v tokens) :
    ∃ last, Takes scope (annotations scope target tokens.length) (.ofTokens tokens)
      [(schema.blank scope.registry).set q.name v.reread] last := by
  cases htokens with
  | @mk _ _ _ _ _ closer _ hsign hadjacent hname htext hopener hkey hkeyText hsep hused hcloser =>
    refine ⟨⟨some closer, []⟩, takes_annotations hsign hadjacent hname
      ((reaches_objectWith h hbare hsign hname htext hopener _).takes ?_)⟩
    exact takes_objectWith hs hfree hsole hproperty hv hdepth hopener hkey hkeyText hsep hused
      hcloser _

theorem fails_spelled (h : Admits scope target className schema)
    (hbare : ClassName.bare ("\\" ++ className) = className) (hv : v.IsWritable)
    (hdepth : maxNesting < v.nesting) (htokens : SpellsAnnotation className q.name v tokens) :
    Fails scope (annotations scope target tokens.length) (.ofTokens tokens) := by
  cases htokens with
  | mk hsign hadjacent hname htext hopener hkey hkeyText hsep hused hcloser =>
    refine fails_annotations hsign hadjacent hname
      ((reaches_objectWith h hbare hsign hname htext hopener _).fails ?_)
    exact fails_objectWith hv hdepth hopener hkey hsep hused hcloser _

end Reading

end Docblock
