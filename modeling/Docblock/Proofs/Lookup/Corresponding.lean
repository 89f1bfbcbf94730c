import Docblock.Proofs.Lookup.Correspondence
import Docblock.Proofs.Lookup.Readers

/-!
# Corresponding readers of values and annotations

Values, arguments and annotations are read alike in two windows of which the second follows the
first, with two sources of schemas that correspond, if the names that are exchanged mean the same.
An annotation passes at least its sign, so that the annotations of a whole text are read alike
whatever number of steps is allotted to them.
-/

namespace Docblock

namespace Scope

def constantNamed (scope : Scope) (written : String) : Lookup Value := do
  let reference ← resolveReference scope.registry scope.settings written
  match referenceValue? scope.registry reference with
  | some v => return v
  | none => throw (.undefinedConstant reference scope.context)

def classNamed (scope : Scope) (written : String) : Lookup (Option String) := do
  if ClassName.isQualified written then return some (ClassName.bare written)
  match ← resolveAnnotation? scope.registry scope.settings written with
  | some resolved => return some (ClassName.bare resolved)
  | none =>
    if scope.settings.isIgnored written then return none
    else throw (.notImported written scope.context)

def schemaNamed (scope : Scope) (written : String) : Lookup (Option AnnotationSchema) := do
  match ← scope.classNamed written with
  | none => return none
  | some className =>
    match ← scope.askSchema className with
    | none => throw (.classNotFound className scope.context)
    | some (some schema) => return some schema
    | some none =>
      if scope.settings.ignoreNotImported || scope.settings.ignoredNames.contains written then
        return none
      else throw (.notMarked className written scope.context)

end Scope

namespace Reading

theorem run_liftM {α : Type} (x : Lookup α) (w : Window) :
    (liftM x : Reading α).run w = x >>= fun a => pure (a, w) := rfl

theorem constant_eq (scope : Scope) :
    constant scope = (do scope.constantNamed (← identifier scope)) := by
  unfold constant Scope.constantNamed
  refine bind_congr fun written => StateT.ext fun w => ?_
  have hreference : (liftM (resolveReference scope.registry scope.settings written) :
      Reading String).run w = (liftM (resolveReference scope.registry scope.settings written) :
        Lookup String) >>= fun a => pure (a, w) := rfl
  rw [StateT.run_bind, hreference, run_liftM, bind_assoc, bind_assoc]
  refine bind_congr fun reference => ?_
  rw [pure_bind]
  cases referenceValue? scope.registry reference <;> rfl

def objectNamed (scope : Scope) (target : Target) (value : Reading (Option Value))
    (written : String) (schema : AnnotationSchema) : Reading (Option Annotation) := do
  if !target.isEmpty && !schema.target.intersects target then
    throw (.targetNotAllowed written scope.context schema.target)
  let values ← arguments scope value
  return some (← schema.objectOf scope.registry ⟨written, scope.context⟩ values)

theorem annotationClass?_eq (scope : Scope) (written : String) :
    annotationClass? scope written = liftM (scope.classNamed written) := by
  refine StateT.ext fun w => ?_
  unfold annotationClass? Scope.classNamed
  split
  · rfl
  · have hresolved : (liftM (resolveAnnotation? scope.registry scope.settings written) :
        Reading (Option String)).run w =
          (liftM (resolveAnnotation? scope.registry scope.settings written) :
            Lookup (Option String)) >>= fun a => pure (a, w) := rfl
    rw [StateT.run_bind, hresolved, run_liftM, bind_assoc, bind_assoc]
    refine bind_congr fun found => ?_
    rw [pure_bind]
    cases found with
    | some resolved => rfl
    | none => dsimp only; split <;> rfl

/-- An annotation is a sign, a name, and what follows once its schema is found. -/
theorem object_eq (scope : Scope) (target : Target) (value : Reading (Option Value)) :
    object scope target value = (do
      let _ ← expect scope .atSign
      let written ← identifier scope
      match ← scope.schemaNamed written with
      | none => return none
      | some schema => objectNamed scope target value written schema) := by
  unfold object
  refine bind_congr fun _ => bind_congr fun written => ?_
  rw [annotationClass?_eq]
  unfold Scope.schemaNamed
  refine StateT.ext fun w => ?_
  rw [StateT.run_bind, StateT.run_bind, run_liftM, run_liftM, bind_assoc, bind_assoc, bind_assoc]
  refine bind_congr fun found => ?_
  rw [pure_bind]
  cases found with
  | none => rfl
  | some className =>
    dsimp only
    rw [annotationSchema?_eq, StateT.run_bind, StateT.run_bind, run_liftM, bind_assoc, bind_assoc,
      bind_assoc]
    refine bind_congr fun asked => ?_
    rw [pure_bind]
    cases asked with
    | none => rfl
    | some found =>
      cases found with
      | some schema => rfl
      | none => dsimp only; split <;> rfl

end Reading

namespace Correspondence

open Window

variable {α β : Type} {before : Option TokenKind} {opened : List TokenKind} {w v : Window}

section Readers

variable (scope : Scope) (source : String → Lookup (Option AnnotationSchema))
  (r : Correspondence scope.registry)

/-- Schemas are found alike in both scopes, and names that are exchanged mean the same in them. -/
structure Understands : Prop where
  asks : ∀ name, r.Related Eq (scope.askSchema (ClassName.bare name))
    ((scope.withSource source).askSchema (ClassName.bare name))
  constant : ∀ {written other}, r.exchange.constants written other →
    r.Related Eq (scope.constantNamed written) ((scope.withSource source).constantNamed other)
  schema : ∀ {written other}, r.exchange.names written other →
    r.Related Eq (scope.schemaNamed written) ((scope.withSource source).schemaNamed other)
  target : ∀ {written other}, r.exchange.names written other → ∀ allowed,
    r.Related (fun _ _ => False)
      (throw (.targetNotAllowed written scope.context allowed) : Lookup (Unit × Window))
      (throw (.targetNotAllowed other scope.context allowed) : Lookup (Unit × Window))
  object : ∀ {written other}, r.exchange.names written other →
    ∀ (schema : AnnotationSchema) (values : OrderedMap Value), r.Related Eq
      (liftM (schema.objectOf scope.registry ⟨written, scope.context⟩ values) : Lookup Annotation)
      (liftM (schema.objectOf scope.registry ⟨other, scope.context⟩ values))

theorem related_askSchema {name : String}
    (h : r.Related Eq (scope.schemaOf name) (source name)) :
    r.Related Eq (scope.askSchema name) ((scope.withSource source).askSchema name) := by
  refine r.related_bind (r.related_exists name) ?_
  rintro present _ rfl
  cases present with
  | false => exact r.related_pure rfl
  | true =>
    refine r.related_bind h ?_
    rintro found _ rfl
    exact r.related_pure rfl

/-- Nothing needs to be understood of names if none are exchanged. -/
theorem understands_of_none (hnone : r.exchange = .none)
    (hs : ∀ name, r.Related Eq (scope.schemaOf (ClassName.bare name))
      (source (ClassName.bare name))) : Understands scope source r where
  asks name := related_askSchema scope source r (hs name)
  constant h := by
    rw [hnone] at h
    exact h.elim
  schema h := by
    rw [hnone] at h
    exact h.elim
  target h := by
    rw [hnone] at h
    exact h.elim
  object h := by
    rw [hnone] at h
    exact h.elim

def Reads (n : Nat) (x y : Reading α) : Prop :=
  ∀ before opened w v, r.Follows before opened w v → r.ReadsAt n (r.Ends opened Eq) w v x y

/-- Readers of values that correspond, but perhaps behind a sign; the first of them fails at the
end. -/
structure Values (value other : Reading (Option Value)) : Prop where
  reads : ∀ before opened w v, before ≠ some .atSign → r.Follows before opened w v →
    r.ReadsAt 1 (r.Ends opened Eq) w v value other
  ends : ∀ w, w.ahead = [] → ∃ e, value.run w = throw e

theorem related_constantNamed (written : String) :
    r.Related Eq (scope.constantNamed written)
      ((scope.withSource source).constantNamed written) := by
  unfold Scope.constantNamed
  refine r.related_bind (r.recallProperty.holds_resolveReference scope.settings written) ?_
  rintro reference _ rfl
  cases hvalue : referenceValue? scope.registry reference with
  | some value =>
    have hother : referenceValue? (scope.withSource source).registry reference = some value :=
      hvalue
    simp only [hother]
    exact r.related_pure rfl
  | none =>
    have hother : referenceValue? (scope.withSource source).registry reference = none := hvalue
    simp only [hother]
    exact r.related_throw trivial rfl

/-- The classes of annotations are named without separators in front. -/
theorem related_classNamed (written : String) :
    r.Related (fun a b => a = b ∧ ∀ className ∈ a, ClassName.bare className = className)
      (scope.classNamed written) ((scope.withSource source).classNamed written) := by
  have hbare (name : String) : ∀ className ∈ some (ClassName.bare name),
      ClassName.bare className = className := by
    rintro _ ⟨⟩
    exact ClassName.bare_bare name
  unfold Scope.classNamed
  split
  · exact r.related_pure ⟨rfl, hbare written⟩
  · refine r.related_bind (r.recallProperty.holds_resolveAnnotation? scope.settings written) ?_
    rintro found _ rfl
    cases found with
    | some resolved => exact r.related_pure ⟨rfl, hbare resolved⟩
    | none =>
      by_cases hignored : scope.settings.isIgnored written
      · simp only [Scope.withSource, hignored, if_true]
        exact r.related_pure ⟨rfl, by rintro _ ⟨⟩⟩
      · simp only [Scope.withSource, hignored, if_false, Bool.false_eq_true]
        exact r.related_throw trivial rfl

theorem related_schemaNamed (hu : Understands scope source r) (written : String) :
    r.Related Eq (scope.schemaNamed written)
      ((scope.withSource source).schemaNamed written) := by
  unfold Scope.schemaNamed
  refine r.related_bind (related_classNamed scope source r written) ?_
  rintro found _ ⟨rfl, hbare⟩
  cases found with
  | none => exact r.related_pure rfl
  | some className =>
    have hasks := hu.asks className
    rw [hbare className rfl] at hasks
    refine r.related_bind hasks ?_
    rintro asked _ rfl
    cases asked with
    | none => exact r.related_throw trivial rfl
    | some found =>
      cases found with
      | some schema => exact r.related_pure rfl
      | none =>
        by_cases hpassed : (scope.settings.ignoreNotImported ||
            scope.settings.ignoredNames.contains written) = true
        · simp only [Scope.withSource, hpassed, if_true]
          exact r.related_pure rfl
        · simp only [Scope.withSource, hpassed, if_false, Bool.false_eq_true]
          exact r.related_throw trivial rfl

/-- Constants are not read behind a sign. -/
theorem readsAt_constant (hu : Understands scope source r) (hbefore : before ≠ some .atSign)
    (h : r.Follows before opened w v) : r.ReadsAt 1 (r.Ends opened Eq) w v (Reading.constant scope)
      (Reading.constant (scope.withSource source)) := by
  rw [Reading.constant_eq, Reading.constant_eq]
  refine r.readsAt_bind (readsAt_identifier scope source r h) ?_
  rintro written other w₂ v₂ ⟨hwritten, _, hnext⟩ _
  refine r.readsAt_lookup hnext ?_
  rcases hwritten with rfl | ⟨hsign, -⟩ | ⟨-, hconstants⟩
  · exact related_constantNamed scope source r written
  · exact absurd hsign hbefore
  · exact hu.constant hconstants

theorem readsAt_literal {t u : Token} {ts us : List Token}
    (h : r.Facing before opened w v t u ts us) (hkind : t.kind.enclose opened = opened)
    (value : Value) : r.ReadsAt 1 (r.Ends opened Eq) w v (Reading.literal value)
      (Reading.literal value) := by
  refine r.readsAt_bind (readsAt_skip scope r h) ?_
  rintro _ _ _ _ ⟨rfl, rfl⟩ _
  have hfollows := h.follows
  rw [hkind] at hfollows
  exact r.readsAt_ends hfollows rfl

theorem run_valueWith_end (collection : Reading (OrderedMap Value))
    (object : Reading (Option Annotation)) (hend : w.ahead = []) :
    ∃ e, (Reading.valueWith scope collection object).run w = throw e := by
  unfold Reading.valueWith
  rw [StateT.run_bind, StateT.run_get, pure_bind]
  unfold lookahead
  rw [hend]
  exact ⟨_, run_unexpected scope .value w⟩

theorem run_valueWith_name {collection : Reading (OrderedMap Value)}
    {object : Reading (Option Annotation)} {t : Token} {ts : List Token}
    (hahead : w.ahead = t :: ts) (hkind : t.kind.isName = true) :
    (Reading.valueWith scope collection object).run w =
      (return some (← Reading.constant scope) : Reading (Option Value)).run w := by
  unfold Reading.valueWith
  rw [StateT.run_bind, StateT.run_get, pure_bind]
  unfold lookahead
  rw [hahead]
  dsimp only [List.head?_cons]
  generalize t.kind = kind at hkind
  cases kind <;> first | rfl | cases hkind

theorem values_valueWith (hu : Understands scope source r)
    {collection collection' : Reading (OrderedMap Value)}
    {object object' : Reading (Option Annotation)} (hc : Reads scope r 1 collection collection')
    (ho : Reads scope r 1 object object') :
    Values scope r (Reading.valueWith scope collection object)
      (Reading.valueWith (scope.withSource source) collection' object') := by
  refine ⟨fun before opened w v hbefore h => ?_, fun w hend =>
    run_valueWith_end scope collection object hend⟩
  have hnone : r.ReadsAt 1 (r.Ends opened Eq) w v
      (Reading.unexpected scope .value : Reading (Option Value))
      (Reading.unexpected (scope.withSource source) .value) :=
    readsAt_unexpected scope source r h _
  have hconstant : r.ReadsAt 1 (r.Ends opened Eq) w v (return some (← Reading.constant scope))
      (return some (← Reading.constant (scope.withSource source))) := by
    refine r.readsAt_bind (readsAt_constant scope source r hu hbefore h) ?_
    rintro value _ w₂ v₂ ⟨rfl, _, hnext⟩ _
    exact r.readsAt_ends hnext rfl
  rcases h.cases with hend | ⟨t, u, ts, us, hfacing⟩
  · unfold Reading.valueWith
    refine r.readsAt_get_bind ?_
    unfold lookahead
    rw [hend]
    rcases h.of_end hend with ⟨-, hother⟩ | ⟨u, us, g, more, hrest, -⟩
    · rw [hother]
      exact hnone
    · exact readsAt_stuck scope r (by rw [hrest]; simp) (run_unexpected scope .value w) _
  · rcases hfacing.tokens with halike | hswapped
    · unfold Reading.valueWith
      refine r.readsAt_get_bind ?_
      unfold lookahead
      rw [hfacing.first, hfacing.second]
      dsimp only [List.head?_cons]
      rw [← halike.kind, ← halike.text]
      have hliteral := readsAt_literal scope r hfacing
      generalize t.kind = kind at hliteral
      cases kind with
      | openBrace =>
        refine r.readsAt_bind (hc before opened w v h) ?_
        rintro items _ w₂ v₂ ⟨rfl, _, hnext⟩ _
        exact r.readsAt_ends hnext rfl
      | atSign =>
        refine r.readsAt_bind (ho before opened w v h) ?_
        rintro found _ w₂ v₂ ⟨rfl, _, hnext⟩ _
        exact r.readsAt_ends hnext rfl
      | identifier => exact hconstant
      | qualifiedName => exact hconstant
      | string => exact hliteral rfl _
      | integer => exact hliteral rfl _
      | float =>
        cases Decimal.readFloat? t.text.toList with
        | some x => exact hliteral rfl _
        | none => exact hnone
      | trueWord => exact hliteral rfl _
      | falseWord => exact hliteral rfl _
      | nullWord => exact hliteral rfl _
      | separator | openParen | closeParen | closeBrace | comma | colon | equals | other =>
        exact hnone
    · have hname : t.kind.isName = true := by
        rcases hswapped.takes with ⟨hsign, -, -⟩ | ⟨-, hkind, -, -⟩
        · exact absurd hsign hbefore
        · exact hkind
      have hother : u.kind.isName = true := by
        rw [hswapped.kind]
        rfl
      unfold ReadsAt
      rw [run_valueWith_name scope hfacing.first hname, run_valueWith_name _ hfacing.second hother]
      exact hconstant

/-- What is exchanged elsewhere than behind a sign is the name of a constant. -/
theorem isName_of_swapped {t u : Token} (hbefore : before ≠ some .atSign)
    (h : r.Swapped before opened w t u) : t.kind.isName = true ∧ u.kind.isName = true := by
  rw [h.kind]
  rcases h.takes with ⟨hsign, -, -⟩ | ⟨-, hkind, -, -⟩
  · exact absurd hsign hbefore
  · exact ⟨hkind, rfl⟩

theorem readsAt_entryKey (hu : Understands scope source r) (hbefore : before ≠ some .atSign)
    (h : r.Follows before opened w v) : r.ReadsAt 1 (r.Ends opened Eq) w v (Reading.entryKey scope)
      (Reading.entryKey (scope.withSource source)) := by
  have hsame : (w.lookahead.any fun t => t.kind.isName) =
      v.lookahead.any fun t => t.kind.isName := by
    refine lookahead_any_of scope r h rfl rfl fun t u ts us hfacing => ?_
    rcases hfacing.tokens with halike | hswapped
    · rw [halike.kind]
    · obtain ⟨hfirst, hsecond⟩ := isName_of_swapped scope r hbefore hswapped
      rw [hfirst, hsecond]
  refine r.readsAt_get_bind ?_
  rw [← hsame]
  split
  · refine r.readsAt_bind (readsAt_constant scope source r hu hbefore h) ?_
    rintro value _ w₂ v₂ ⟨rfl, _, hnext⟩ _
    cases value.key? with
    | some key => exact r.readsAt_ends hnext rfl
    | none => exact r.readsAt_throw trivial rfl
  · refine r.readsAt_bind (readsAt_expectAny scope source r h (by decide)) ?_
    rintro t u _ _ ⟨ts, us, hfacing, hkind, rfl, rfl⟩ _
    have hliteral : t.kind = .integer ∨ t.kind = .string := by simpa using hkind
    have hnext : r.Follows (some t.kind) opened w.advance v.advance := by
      have hfollows := hfacing.follows
      rcases hliteral with hkind | hkind
      · rwa [hkind] at hfollows ⊢
      · rwa [hkind] at hfollows ⊢
    rcases hfacing.tokens with halike | hswapped
    · rw [halike.text]
      exact r.readsAt_ends hnext rfl
    · have hname := (isName_of_swapped scope r hbefore hswapped).1
      rcases hliteral with hkind | hkind
      · rw [hkind] at hname
        cases hname
      · rw [hkind] at hname
        cases hname

variable {value other : Reading (Option Value)}

/-- At the end of the first window the second one is at its end too, or the first reading fails. -/
theorem readsAt_of_end {n : Nat} {R : α → β → Window → Window → Prop} {x : Reading α}
    {y : Reading β} (hstuck : w.ahead = [] → ∃ e, x.run w = throw e)
    (h : w.ahead ≠ [] ∨ r.rest = [] → r.ReadsAt n R w v x y) : r.ReadsAt n R w v x y := by
  by_cases hend : w.ahead = []
  · by_cases hrest : r.rest = []
    · exact h (.inr hrest)
    · obtain ⟨e, hx⟩ := hstuck hend
      exact readsAt_stuck scope r hrest hx y
  · exact h (.inl hend)

theorem glimpse_end (hend : w.ahead = []) : w.glimpse = none := by
  unfold glimpse
  rw [hend]
  rfl

theorem not_sign_of_startsItem (h : before.any TokenKind.startsItem = true) :
    before ≠ some .atSign := by
  rintro rfl
  cases h

theorem readsAt_entry (hu : Understands scope source r) (h : Values scope r value other)
    (hbefore : before.any TokenKind.startsItem = true) (hfollows : r.Follows before opened w v) :
    r.ReadsAt 0 (r.Ends opened Eq) w v (Reading.entry scope value)
      (Reading.entry (scope.withSource source) other) := by
  have hsign := not_sign_of_startsItem hbefore
  refine readsAt_of_end scope r ?_ fun hsome => ?_
  · intro hend
    obtain ⟨e, he⟩ := h.ends w hend
    refine ⟨e, ?_⟩
    unfold Reading.entry
    rw [StateT.run_bind, StateT.run_get, pure_bind, glimpse_end hend, Option.any_none]
    simp only [Bool.false_eq_true, if_false, StateT.run_bind, he]
    rfl
  · have hkeys : Telling Reading.keySeparators.contains := ⟨rfl, rfl, by decide⟩
    refine r.readsAt_get_bind ?_
    rw [← glimpse_any scope r hfollows hsome hkeys]
    split
    · refine r.readsAt_next (readsAt_entryKey scope source r hu hsign hfollows)
        fun key _ w₂ v₂ hkey _ => ?_
      refine r.readsAt_seq (readsAt_expectAny scope source r hkey (by decide)) ?_
      rintro t u _ _ ⟨ts, us, hfacing, hkind, rfl, rfl⟩ _
      have hseparator : t.kind = .equals ∨ t.kind = .colon := by
        simpa [Reading.keySeparators] using hkind
      have hvalue : r.ReadsAt 1 (r.Ends opened Eq) w₂.advance v₂.advance value other := by
        have hnext := hfacing.follows
        rcases hseparator with hkind | hkind
        · rw [hkind] at hnext
          exact h.reads _ opened _ _ (by decide) hnext
        · rw [hkind] at hnext
          exact h.reads _ opened _ _ (by decide) hnext
      exact r.readsAt_next hvalue fun _ _ _ _ hend _ => r.readsAt_ends hend rfl
    · exact r.readsAt_next (h.reads before opened w v hsign hfollows) fun _ _ _ _ hend _ =>
        r.readsAt_ends hend rfl

theorem reads_collection (hu : Understands scope source r) (h : Values scope r value other) :
    Reads scope r 1 (Reading.collection scope value)
      (Reading.collection (scope.withSource source) other) := by
  intro before opened w v hfollows
  refine r.readsAt_bind (readsAt_expect scope source r hfollows (by decide))
    fun _ _ w₂ v₂ hopen _ => ?_
  have hentry {before : Option TokenKind} (hbefore : before.any TokenKind.startsItem = true)
      (w v : Window) (hfollows : r.Follows before (.openBrace :: opened) w v) :=
    readsAt_entry scope source r hu h hbefore hfollows
  refine readsAt_isNext_bind scope r hopen ⟨rfl, rfl, by decide⟩ ?_
  split
  · next hclosed =>
    exact readsAt_skip_bind scope r hopen hclosed fun _ _ hend _ => r.readsAt_ends hend rfl
  · have hcloser : Telling (· == .closeBrace) := ⟨rfl, rfl, by decide⟩
    have hitems := readsAt_items scope r hcloser (hentry rfl w₂ v₂ hopen) (hentry rfl)
    refine r.readsAt_next hitems fun entries _ w₃ v₃ hclosing _ => ?_
    exact r.readsAt_seq (readsAt_expect scope source r hclosing (by decide)) fun _ _ _ _ hend _ =>
      r.readsAt_ends hend rfl

/-- In parentheses no name is exchanged that an equals sign follows. -/
theorem alike_of_named {t u : Token} {ts us : List Token}
    (hbefore : before.any TokenKind.startsItem = true) (hopened : opened.head? = some .openParen)
    (hnamed : (w.glimpse.any fun t => t.kind == .equals) = true)
    (h : r.Facing before opened w v t u ts us) : t.Alike u := by
  rcases h.tokens with halike | hswapped
  · exact halike
  · rcases hswapped.takes with ⟨hname, -, -⟩ | ⟨-, -, hkey, -⟩
    · exact absurd hname (not_sign_of_startsItem hbefore)
    · obtain ⟨next, hnext, hequals⟩ := (Option.any_eq_true _ _).1 hnamed
      have hbrace := hkey hbefore (by rw [hnext, Option.map_some, eq_of_beq hequals])
      rw [hopened] at hbrace
      cases hbrace

theorem readsAt_argument (h : Values scope r value other)
    (hbefore : before.any TokenKind.startsItem = true) (hopened : opened.head? = some .openParen)
    (hfollows : r.Follows before opened w v) :
    r.ReadsAt 0 (r.Ends opened Eq) w v (Reading.argument scope value)
      (Reading.argument (scope.withSource source) other) := by
  have hsign := not_sign_of_startsItem hbefore
  refine readsAt_of_end scope r ?_ fun hsome => ?_
  · intro hend
    obtain ⟨e, he⟩ := h.ends w hend
    refine ⟨e, ?_⟩
    unfold Reading.argument
    rw [StateT.run_bind, StateT.run_get, pure_bind, glimpse_end hend, Option.any_none]
    simp only [Bool.false_eq_true, if_false, StateT.run_bind, he]
    rfl
  · have hequals : Telling (· == .equals) := ⟨rfl, rfl, by decide⟩
    refine r.readsAt_get_bind ?_
    rw [← glimpse_any scope r hfollows hsome hequals]
    split
    · next hnamed =>
      rcases hfollows.cases with hend | ⟨t, u, ts, us, hfacing⟩
      · rw [glimpse_end hend] at hnamed
        cases hnamed
      · have hkind := (alike_of_named scope r hbefore hopened hnamed hfacing).kind
        have hsame : [TokenKind.identifier].contains t.kind = [.identifier].contains u.kind := by
          rw [hkind]
        have hname := readsAt_expectAny_facing scope source r hfollows hfacing hsame
        refine r.readsAt_seq hname ?_
        rintro name _ _ _ ⟨ts, us, htaken, hidentifier, rfl, rfl⟩ _
        rw [(alike_of_named scope r hbefore hopened hnamed htaken).text]
        have hnext := follows_classPart scope r htaken (by
          have hkind : name.kind = .identifier := by simpa using hidentifier
          rw [hkind]
          decide)
        refine r.readsAt_seq (readsAt_expect scope source r hnext (by decide))
          fun _ _ w₃ v₃ hvalue _ => ?_
        exact r.readsAt_next (h.reads _ opened w₃ v₃ (by decide) hvalue) fun _ _ _ _ hend _ =>
          r.readsAt_ends hend rfl
    · exact r.readsAt_next (h.reads before opened w v hsign hfollows) fun _ _ _ _ hend _ =>
        r.readsAt_ends hend rfl

theorem readsAt_arguments (h : Values scope r value other)
    (hfollows : r.Follows before opened w v) :
    r.ReadsAt 0 (r.Ends opened Eq) w v (Reading.arguments scope value)
      (Reading.arguments (scope.withSource source) other) := by
  have hclose {before : Option TokenKind} {w v : Window}
      (hfollows : r.Follows before (.openParen :: opened) w v) (given : List (Option Argument)) :
      r.ReadsAt 0 (r.Ends opened Eq) w v
        (do let _ ← Reading.expect scope .closeParen
            return Argument.fold (given.filterMap id))
        (do let _ ← Reading.expect (scope.withSource source) .closeParen
            return Argument.fold (given.filterMap id)) :=
    r.readsAt_seq (readsAt_expect scope source r hfollows (by decide)) fun _ _ _ _ hend _ =>
      r.readsAt_ends hend rfl
  have hargument {before : Option TokenKind} (hbefore : before.any TokenKind.startsItem = true)
      (w v : Window) (hfollows : r.Follows before (.openParen :: opened) w v) :=
    readsAt_argument scope source r h hbefore rfl hfollows
  refine readsAt_isNext_bind scope r hfollows ⟨rfl, rfl, by decide⟩ ?_
  cases hopen : w.isNext .openParen with
  | false => exact r.readsAt_ends hfollows rfl
  | true =>
    refine readsAt_skip_bind scope r hfollows hopen fun w₂ v₂ hinside _ => ?_
    refine readsAt_isNext_bind scope r hinside ⟨rfl, rfl, by decide⟩ ?_
    split
    · exact r.readsAt_next (r.readsAt_ends hinside rfl) fun given _ _ _ hclosing _ =>
        hclose hclosing given
    · have hcloser : Telling (· == .closeParen) := ⟨rfl, rfl, by decide⟩
      have hitems := readsAt_items scope r hcloser (hargument rfl w₂ v₂ hinside) (hargument rfl)
      exact r.readsAt_next hitems fun given _ _ _ hclosing _ => hclose hclosing given

theorem startsAnnotation_eq_any {t : Token} {ts : List Token} (h : w.ahead = t :: ts) :
    Reading.startsAnnotation w =
      (t.kind == .atSign && !(w.behind.any fun before => before.isAdjacent t) &&
        w.advance.lookahead.any fun name => (name.kind == .separator || name.kind.isClassPart) &&
          w.advance.behind.any fun b => b.isAdjacent name) := by
  unfold Reading.startsAnnotation advance lookahead
  rw [h]
  cases ts with
  | nil => simp
  | cons name more => simp [Bool.and_assoc, Bool.and_comm (t.isAdjacent name)]

/-- A token of the first window starts an annotation if and only if the facing one does. -/
theorem startsAnnotation_eq {t u : Token} {ts us : List Token}
    (h : r.Facing before opened w v t u ts us) :
    Reading.startsAnnotation w = Reading.startsAnnotation v := by
  have hname := adjacent_any scope r h.follows
    (p := fun kind => kind == .separator || kind.isClassPart) ⟨rfl, rfl, by decide⟩
  have hsign := h.kind_eq (p := (· == .atSign)) (by decide)
  rw [startsAnnotation_eq_any h.first, startsAnnotation_eq_any h.second, hname, h.glued]
  rw [hsign]

theorem readsAt_objectNamed (hu : Understands scope source r) (target : Target)
    (h : Values scope r value other) (schema : AnnotationSchema) {written another : String}
    (hwritten : written = another ∨ r.exchange.names written another)
    (hfollows : r.Follows before opened w v) :
    r.ReadsAt 0 (r.Ends opened Eq) w v (Reading.objectNamed scope target value written schema)
      (Reading.objectNamed (scope.withSource source) target other another schema) := by
  have hmake : r.ReadsAt 0 (r.Ends opened Eq) w v
      (do let values ← Reading.arguments scope value
          return some (← schema.objectOf scope.registry ⟨written, scope.context⟩ values))
      (do let values ← Reading.arguments (scope.withSource source) other
          return some (← schema.objectOf scope.registry ⟨another, scope.context⟩ values)) := by
    refine r.readsAt_next (readsAt_arguments scope source r h hfollows)
      fun values _ w₂ v₂ hend _ => ?_
    have hobject : r.Related Eq
        (liftM (schema.objectOf scope.registry ⟨written, scope.context⟩ values) : Lookup Annotation)
        (liftM (schema.objectOf scope.registry ⟨another, scope.context⟩ values)) := by
      rcases hwritten with rfl | hnames
      · cases hmade : schema.objectOf scope.registry ⟨written, scope.context⟩ values with
        | ok made => exact r.related_pure rfl
        | error e => exact r.related_throw (schema.failsOnly_objectOf _ _ _ e hmade).isOwn rfl
      · exact hu.object hnames schema values
    have hread : r.ReadsAt 0 (r.Ends opened Eq) w₂ v₂
        (liftM (schema.objectOf scope.registry ⟨written, scope.context⟩ values) :
          Reading Annotation)
        (liftM (schema.objectOf scope.registry ⟨another, scope.context⟩ values)) :=
      r.readsAt_lookup hend hobject
    exact r.readsAt_next hread fun _ _ _ _ hlast _ => r.readsAt_ends hlast rfl
  have htarget : r.ReadsAt 0 (fun _ _ _ _ => False) w v
      (throw (.targetNotAllowed written scope.context schema.target) : Reading Unit)
      (throw (.targetNotAllowed another scope.context schema.target) : Reading Unit) := by
    rcases hwritten with rfl | hnames
    · exact r.readsAt_throw trivial rfl
    · exact r.related_mono (hu.target hnames schema.target) fun _ _ hfalse => hfalse.elim
  unfold Reading.objectNamed
  split
  · exact r.readsAt_seq htarget fun _ _ _ _ hfalse => hfalse.elim
  · exact hmake

theorem reads_object (hu : Understands scope source r) (target : Target)
    (h : Values scope r value other) :
    Reads scope r 1 (Reading.object scope target value)
      (Reading.object (scope.withSource source) target other) := by
  intro before opened w v hfollows
  rw [Reading.object_eq, Reading.object_eq]
  refine r.readsAt_bind (readsAt_expect scope source r hfollows (by decide))
    fun _ _ w₂ v₂ hsign _ => ?_
  refine r.readsAt_seq (readsAt_identifier scope source r hsign) ?_
  rintro written another w₃ v₃ ⟨hwritten, _, hnext⟩ _
  have hnames : written = another ∨ r.exchange.names written another := by
    rcases hwritten with hsame | ⟨-, hnames⟩ | ⟨hother, -⟩
    · exact .inl hsame
    · exact .inr hnames
    · exact absurd rfl hother
  have hschema : r.Related Eq (scope.schemaNamed written)
      ((scope.withSource source).schemaNamed another) := by
    rcases hnames with rfl | hnames
    · exact related_schemaNamed scope source r hu written
    · exact hu.schema hnames
  refine r.readsAt_next (r.readsAt_lookup hnext hschema) fun found _ w₄ v₄ hfound _ => ?_
  cases found with
  | none => exact r.readsAt_ends hfound rfl
  | some schema =>
    exact readsAt_objectNamed scope source r hu target h schema hnames hfound

theorem values_value (hu : Understands scope source r) (room : Nat) :
    Values scope r (Reading.value scope room) (Reading.value (scope.withSource source) room) := by
  induction room with
  | zero =>
    exact values_valueWith scope source r hu
      (fun _ _ _ _ h => readsAt_unexpected scope source r h _)
      fun _ _ _ _ h => readsAt_unexpected scope source r h _
  | succ room ih =>
    exact values_valueWith scope source r hu (reads_collection scope source r hu ih)
      (reads_object scope source r hu .nested ih)

theorem run_annotations_end (target : Target) (steps : Nat) (hend : w.ahead = []) :
    (Reading.annotations scope target steps).run w = pure ([], w) := by
  cases steps with
  | zero => rfl
  | succ steps =>
    unfold Reading.annotations
    rw [StateT.run_bind, StateT.run_get, pure_bind, hend]
    rfl

/-- Windows that show the same are read alike to their ends, with enough steps for both. -/
theorem readsAt_annotations (hu : Understands scope source r) (hrest : r.rest = [])
    (target : Target) {steps others : Nat} (hfollows : r.Follows before opened w v)
    (hsteps : w.ahead.length ≤ steps) (hothers : v.ahead.length ≤ others) :
    r.ReadsAt 0 (fun as bs _ _ => as = bs) w v (Reading.annotations scope target steps)
      (Reading.annotations (scope.withSource source) target others) := by
  have hend {before : Option TokenKind} {opened : List TokenKind} {w v : Window}
      (hfollows : r.Follows before opened w v) (hend : w.ahead = []) (steps others : Nat) :
      r.ReadsAt 0 (fun as bs _ _ => as = bs) w v (Reading.annotations scope target steps)
        (Reading.annotations (scope.withSource source) target others) := by
    have hother : v.ahead = [] := by
      rw [← List.length_eq_zero_iff, hfollows.length_eq, hend, hrest]
      rfl
    unfold ReadsAt
    rw [run_annotations_end scope target steps hend, run_annotations_end _ target others hother]
    exact r.related_pure ⟨rfl, Nat.le_refl _⟩
  induction steps generalizing before opened others w v with
  | zero => exact hend hfollows (List.length_eq_zero_iff.1 (Nat.le_zero.1 hsteps)) _ _
  | succ steps ih =>
    rcases hfollows.cases with hnone | ⟨t, u, ts, us, hfacing⟩
    · exact hend hfollows hnone _ _
    · obtain ⟨others, rfl⟩ : ∃ k, others = k + 1 := by
        rw [hfacing.second, List.length_cons] at hothers
        exact ⟨others - 1, by omega⟩
      unfold Reading.annotations
      refine r.readsAt_get_bind ?_
      rw [← startsAnnotation_eq scope r hfacing, hfacing.first, hfacing.second]
      dsimp only [List.isEmpty_cons]
      have hall := hfollows.length_eq
      have hobject := reads_object scope source r hu target
        (values_value scope source r hu Reading.maxNesting) before opened w v hfollows
      split
      · contradiction
      · split
        · refine r.readsAt_next hobject fun found _ w₂ v₂ hnext hless => ?_
          have hlater := hnext.length_eq
          refine r.readsAt_seq (ih hnext (by omega) (by omega)) ?_
          rintro all _ _ _ rfl _
          exact r.readsAt_pure rfl
        · refine r.readsAt_seq (readsAt_skip scope r hfacing) ?_
          rintro _ _ _ _ ⟨rfl, rfl⟩ hless
          have hlater := hfacing.follows.length_eq
          exact ih hfacing.follows (by omega) (by omega)

/-- Texts are read alike if the body of the second one is that of the first with names exchanged. -/
theorem related_bodies (hu : Understands scope source r) (hrest : r.rest = []) (target : Target)
    {input other body others : String} (hinput : DocText.body? input = some body)
    (hother : DocText.body? other = some others)
    (h : Glyph.Recast r.exchange r.rest none [] (Glyph.ofText body.toList)
      (Glyph.ofText others.toList)) :
    r.Related Eq (readDoc scope target input) (readDoc (scope.withSource source) target other) := by
  unfold readDoc
  rw [hinput, hother]
  dsimp only
  rw [map_eq_pure_bind, map_eq_pure_bind]
  have hfollows : r.Follows none [] (.ofTokens (Token.scan body)) (.ofTokens (Token.scan others)) :=
    h
  have hread := readsAt_annotations scope source r hu hrest target hfollows
    (Nat.le_refl (Token.scan body).length) (Nat.le_refl (Token.scan others).length)
  exact r.related_bind hread fun _ _ hab => r.related_pure hab.1

/-- Doc comments are read alike in two scopes whose schemas correspond. -/
theorem related_readDoc (hu : Understands scope source r) (hrest : r.rest = []) (target : Target)
    (input : String) :
    r.Related Eq (readDoc scope target input) (readDoc (scope.withSource source) target input) := by
  cases hbody : DocText.body? input with
  | none =>
    unfold readDoc
    rw [hbody]
    exact r.related_pure rfl
  | some body =>
    refine related_bodies scope source r hu hrest target hbody hbody ?_
    rw [hrest]
    exact Glyph.recast_refl r.exchange none [] _

end Readers

end Correspondence

end Docblock
