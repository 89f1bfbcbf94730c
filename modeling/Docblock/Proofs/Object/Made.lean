import Docblock.Proofs.Lookup.Readers

/-!
# How objects are made

Every object that reading gives is made of arguments, whose values are literals, constants,
collections and objects made in turn. What holds of each object when it is made holds of all the
objects inside a result, however deep they lie and whether or not they are kept.
-/

namespace Docblock

def Argument.value : Argument → Value
  | named _ v => v
  | positional v => v

section Made

variable (registry : Registry) (describes : String → AnnotationSchema → Prop)

mutual

inductive MadeValue : Value → Prop where
  | literal {v : Value} : v.isNull = true ∨ v.isScalar = true → MadeValue v
  | constant {reference : String} {v : Value} :
      referenceValue? registry reference = some v → MadeValue v
  | collection {entries : List (Option Key × Option Value)} :
      (∀ e ∈ entries, ∀ v ∈ e.2, MadeValue v) →
      MadeValue (.array (entries.foldl OrderedMap.addEntry .empty))
  | object {s : AnnotationSchema} {values : OrderedMap Value} {a : Annotation} :
      Made s values a → MadeValue (.object a.className a.properties)

inductive Made : AnnotationSchema → OrderedMap Value → Annotation → Prop where
  | mk {className : String} {s : AnnotationSchema} {place : Place} {given : List Argument}
      {a : Annotation} : ClassName.bare className = className → describes className s →
      (∀ g ∈ given, MadeValue g.value) →
      s.objectOf registry place (Argument.fold given) = .ok a → Made s (Argument.fold given) a

end

/-- What literals and constants have, and collections of values that have it. -/
structure ValueRule (P : Value → Prop) : Prop where
  literal : ∀ v, v.isNull = true ∨ v.isScalar = true → P v
  constant : ∀ reference v, referenceValue? registry reference = some v → P v
  collection : ∀ entries : List (Option Key × Option Value), (∀ e ∈ entries, ∀ v ∈ e.2, P v) →
    P (.array (entries.foldl OrderedMap.addEntry .empty))

/-- An object made of arguments for a class that may stand on the target. The values of the
arguments satisfy `P`. -/
inductive MadeOn (target : Target) (P : Value → Prop) : Annotation → Prop where
  | mk {className : String} {s : AnnotationSchema} {place : Place} {given : List Argument}
      {a : Annotation} : ClassName.bare className = className → describes className s →
      (target.isEmpty = true ∨ s.target.intersects target = true) → (∀ g ∈ given, P g.value) →
      s.objectOf registry place (Argument.fold given) = .ok a → MadeOn target P a

theorem valueRule_made : ValueRule registry (MadeValue registry describes) where
  literal _ := .literal
  constant _ _ := .constant
  collection _ := .collection

variable {registry describes}

theorem MadeOn.made {target : Target} {a : Annotation}
    (h : MadeOn registry describes target (MadeValue registry describes) a) :
    ∃ s values, Made registry describes s values a := by
  obtain ⟨hbare, hs, -, hgiven, hobject⟩ := h
  exact ⟨_, _, .mk hbare hs hgiven hobject⟩

end Made

namespace Reading

variable {α β : Type}

def Ensures (x : Reading α) (post : α → Prop) : Prop := ∀ a, x.Returns a → post a

variable {post : α → Prop} {last : β → Prop}

theorem ensures_pure {a : α} (h : post a) : Ensures (pure a) post := by
  rintro b ⟨w, m, v, n, hrun⟩
  rw [result_pure] at hrun
  obtain ⟨hb, -⟩ := Prod.mk.inj hrun
  obtain ⟨rfl, -⟩ := Prod.mk.inj (Except.ok.inj hb)
  exact h

theorem ensures_throw (e : AnnotationError) : Ensures (throw e) post := by
  rintro b ⟨w, m, v, n, hrun⟩
  cases hrun

theorem ensures_bind {x : Reading α} {f : α → Reading β} (hx : Ensures x post)
    (hf : ∀ a, post a → Ensures (f a) last) : Ensures (x >>= f) last := by
  rintro b ⟨w, m, v, n, hrun⟩
  obtain ⟨a, u, o, ha, hb⟩ := bind_eq_ok hrun
  exact hf a (hx a ⟨w, m, u, o, ha⟩) b ⟨u, o, v, n, hb⟩

theorem ensures_mono {x : Reading α} {other : α → Prop} (hx : Ensures x post)
    (h : ∀ a, post a → other a) : Ensures x other := fun a ha => h a (hx a ha)

theorem ensures_seq {x : Reading α} {f : α → Reading β} (hf : ∀ a, Ensures (f a) last) :
    Ensures (x >>= f) last :=
  ensures_bind (fun _ _ => trivial) fun a _ => hf a

theorem ensures_returns (x : Reading α) : Ensures x x.Returns := fun _ h => h

theorem ensures_unexpected (scope : Scope) (expected : Expectation) :
    Ensures (unexpected scope expected : Reading α) post :=
  ensures_seq fun _ => ensures_throw _

theorem ensures_moreItems {closer : TokenKind} {x : Reading α} (hx : Ensures x post) (steps : Nat) :
    Ensures (moreItems closer x steps) fun all => ∀ a ∈ all, post a := by
  have hnil : Ensures (pure [] : Reading (List α)) fun all => ∀ a ∈ all, post a :=
    ensures_pure fun a ha => by cases ha
  induction steps with
  | zero => exact hnil
  | succ steps ih =>
    refine ensures_seq fun comma => ?_
    split
    · exact hnil
    · refine ensures_seq fun _ => ensures_seq fun closed => ?_
      split
      · exact hnil
      · refine ensures_bind hx fun a ha => ensures_bind ih fun rest hrest => ensures_pure ?_
        simpa using ⟨ha, hrest⟩

theorem ensures_items {closer : TokenKind} {x : Reading α} (hx : Ensures x post) :
    Ensures (items closer x) fun all => ∀ a ∈ all, post a := by
  refine ensures_bind hx fun a ha => ensures_seq fun w => ?_
  refine ensures_bind (ensures_moreItems hx _) fun rest hrest => ensures_pure ?_
  simpa using ⟨ha, hrest⟩

section Scope

variable {scope : Scope} {P : Value → Prop}

theorem ensures_constant :
    Ensures (constant scope) fun v => ∃ reference,
      referenceValue? scope.registry reference = some v := by
  refine ensures_seq fun written => ensures_seq fun reference => ?_
  cases hvalue : referenceValue? scope.registry reference with
  | none => exact ensures_throw _
  | some v => exact ensures_pure ⟨reference, hvalue⟩

theorem ensures_literal (rule : ValueRule scope.registry P) {v : Value}
    (h : v.isNull = true ∨ v.isScalar = true) : Ensures (literal v) fun o => ∀ v ∈ o, P v := by
  refine ensures_seq fun _ => ensures_pure ?_
  intro w hw
  obtain rfl := Option.some.inj hw
  exact rule.literal v h

theorem ensures_valueWith (rule : ValueRule scope.registry P)
    {collection : Reading (OrderedMap Value)} {object : Reading (Option Annotation)}
    (hcollection : Ensures collection fun items => P (.array items))
    (hobject : Ensures object fun o => ∀ a ∈ o, P (.object a.className a.properties)) :
    Ensures (valueWith scope collection object) fun o => ∀ v ∈ o, P v := by
  have hconstant : Ensures (do return some (← constant scope)) fun o => ∀ v ∈ o, P v := by
    refine ensures_bind ensures_constant fun v hv => ensures_pure ?_
    obtain ⟨reference, hreference⟩ := hv
    intro w hw
    rw [← Option.some.inj hw]
    exact rule.constant reference v hreference
  refine ensures_seq fun w => ?_
  cases w.lookahead with
  | none => exact ensures_unexpected scope _
  | some t =>
    dsimp only
    cases t.kind with
    | openBrace =>
      refine ensures_bind hcollection fun items hitems => ensures_pure ?_
      intro w hw
      rw [← Option.some.inj hw]
      exact hitems
    | atSign =>
      refine ensures_bind hobject fun found hfound => ensures_pure ?_
      intro w hw
      obtain ⟨a, ha, rfl⟩ := Option.map_eq_some_iff.1 hw
      exact hfound a ha
    | identifier => exact hconstant
    | qualifiedName => exact hconstant
    | string => exact ensures_literal rule (.inr rfl)
    | integer => exact ensures_literal rule (.inr rfl)
    | float =>
      dsimp only
      cases Decimal.readFloat? t.text.toList with
      | none => exact ensures_unexpected scope _
      | some x => exact ensures_literal rule (.inr rfl)
    | trueWord => exact ensures_literal rule (.inr rfl)
    | falseWord => exact ensures_literal rule (.inr rfl)
    | nullWord => exact ensures_literal rule (.inl rfl)
    | separator | openParen | closeParen | closeBrace | comma | colon | equals | other =>
      exact ensures_unexpected scope _

variable {value : Reading (Option Value)}

theorem ensures_entry (hvalue : Ensures value fun o => ∀ v ∈ o, P v) :
    Ensures (entry scope value) fun e => ∀ v ∈ e.2, P v := by
  refine ensures_seq fun w => ?_
  split
  · refine ensures_seq fun key => ensures_seq fun _ => ?_
    exact ensures_bind hvalue fun o ho => ensures_pure ho
  · exact ensures_bind hvalue fun o ho => ensures_pure ho

theorem ensures_collection (rule : ValueRule scope.registry P)
    (hvalue : Ensures value fun o => ∀ v ∈ o, P v) :
    Ensures (collection scope value) fun items => P (.array items) := by
  refine ensures_seq fun _ => ensures_seq fun closed => ?_
  split
  · refine ensures_seq fun _ => ensures_pure (rule.collection [] ?_)
    intro e he
    cases he
  · refine ensures_bind (ensures_items (ensures_entry hvalue)) fun entries hentries => ?_
    exact ensures_seq fun _ => ensures_pure (rule.collection entries hentries)

theorem ensures_argument (hvalue : Ensures value fun o => ∀ v ∈ o, P v) :
    Ensures (argument scope value) fun o => ∀ g ∈ o, P g.value := by
  have hmap (make : Value → Argument) (hmake : ∀ v, (make v).value = v) :
      Ensures (do return (← value).map make) fun o => ∀ g ∈ o, P g.value := by
    refine ensures_bind hvalue fun o ho => ensures_pure ?_
    intro g hg
    obtain ⟨v, hv, rfl⟩ := Option.map_eq_some_iff.1 hg
    rw [hmake]
    exact ho v hv
  refine ensures_seq fun w => ?_
  split
  · refine ensures_seq fun name => ensures_seq fun _ => ?_
    exact hmap (.named name.text) fun _ => rfl
  · exact hmap .positional fun _ => rfl

theorem ensures_arguments (hvalue : Ensures value fun o => ∀ v ∈ o, P v) :
    Ensures (arguments scope value) fun values => ∃ given,
      (∀ g ∈ given, P g.value) ∧ values = Argument.fold given := by
  have hlast {given : Reading (List (Option Argument))} (hgiven : Ensures given fun all =>
      ∀ o ∈ all, ∀ g ∈ o, P g.value) :
      Ensures (do let given ← given
                  let _ ← expect scope .closeParen
                  return Argument.fold (given.filterMap id)) fun values => ∃ given,
        (∀ g ∈ given, P g.value) ∧ values = Argument.fold given := by
    refine ensures_bind hgiven fun all hall => ensures_seq fun _ => ensures_pure ⟨_, ?_, rfl⟩
    intro g hg
    obtain ⟨o, ho, hsome⟩ := List.mem_filterMap.1 hg
    exact hall o ho g hsome
  refine ensures_seq fun opened => ?_
  split
  · refine ensures_pure ⟨[], ?_, rfl⟩
    intro g hg
    cases hg
  · refine ensures_seq fun _ => ensures_seq fun closed => ?_
    split
    · refine hlast (ensures_pure ?_)
      intro o ho
      cases ho
    · exact hlast (ensures_items (ensures_argument hvalue))

variable {describes : String → AnnotationSchema → Prop}
  (hdescribes : ∀ className s, ClassName.bare className = className →
    (scope.schemaOf className).Returns (some s) → describes className s)

include hdescribes

theorem ensures_annotationSchema? {written className : String}
    (hbare : ClassName.bare className = className) :
    Ensures (annotationSchema? scope written className) fun o =>
      ∀ s ∈ o, describes className s := by
  unfold annotationSchema?
  refine ensures_seq fun present => ?_
  cases present with
  | false => exact ensures_throw _
  | true =>
    refine ensures_bind (ensures_returns _) fun found hfound => ?_
    cases found with
    | none =>
      dsimp only
      split
      · refine ensures_pure ?_
        intro s hs
        cases hs
      · exact ensures_throw _
    | some schema =>
      refine ensures_pure ?_
      intro s hs
      obtain rfl := Option.some.inj hs
      exact hdescribes className schema hbare (returns_of_lookup hfound)

theorem ensures_object (target : Target) (hvalue : Ensures value fun o => ∀ v ∈ o, P v) :
    Ensures (object scope target value) fun o =>
      ∀ a ∈ o, MadeOn scope.registry describes target P a := by
  have hnone : Ensures (pure none : Reading (Option Annotation)) fun o =>
      ∀ a ∈ o, MadeOn scope.registry describes target P a := by
    refine ensures_pure ?_
    intro a ha
    cases ha
  refine ensures_seq fun _ => ensures_seq fun written => ?_
  refine ensures_bind (ensures_returns _) fun found hfound => ?_
  cases found with
  | none => exact hnone
  | some className =>
    have hbare := bare_of_annotationClass? hfound
    refine ensures_bind (ensures_annotationSchema? hdescribes hbare) fun schema? hschema => ?_
    cases schema? with
    | none => exact hnone
    | some s =>
      have hmake (htarget : target.isEmpty = true ∨ s.target.intersects target = true) :
          Ensures (do
            let values ← arguments scope value
            return some (← s.objectOf scope.registry ⟨written, scope.context⟩ values)) fun o =>
            ∀ a ∈ o, MadeOn scope.registry describes target P a := by
        refine ensures_bind (ensures_arguments hvalue) fun values hvalues => ?_
        obtain ⟨given, hgiven, rfl⟩ := hvalues
        cases hobject : s.objectOf scope.registry ⟨written, scope.context⟩
            (Argument.fold given) with
        | error e =>
          have hthrow : Ensures (throw e : Reading Annotation) fun _ => False := ensures_throw e
          exact ensures_bind hthrow fun a ha => ha.elim
        | ok made =>
          refine ensures_pure ?_
          intro a ha
          obtain rfl := Option.some.inj ha
          exact .mk hbare (hschema s rfl) htarget hgiven hobject
      dsimp only
      split
      · have hrefused : Ensures (throw (.targetNotAllowed written scope.context s.target) :
            Reading PUnit) fun _ => False := ensures_throw _
        exact ensures_bind hrefused fun _ hfalse => hfalse.elim
      · next hallowed =>
        refine hmake ?_
        simpa [Classical.or_iff_not_imp_left] using hallowed

theorem ensures_value (rule : ValueRule scope.registry P)
    (hobject : ∀ a, MadeOn scope.registry describes .nested P a →
      P (.object a.className a.properties)) (room : Nat) :
    Ensures (Reading.value scope room) fun o => ∀ v ∈ o, P v := by
  induction room with
  | zero => exact ensures_valueWith rule (ensures_unexpected scope _) (ensures_unexpected scope _)
  | succ room ih =>
    refine ensures_valueWith rule (ensures_collection rule ih) ?_
    exact ensures_mono (ensures_object hdescribes .nested ih) fun o ho a ha => hobject a (ho a ha)

/-- All annotations of a text are made for the target, and those inside them for the target that
stands for annotations. -/
theorem ensures_annotations (rule : ValueRule scope.registry P)
    (hobject : ∀ a, MadeOn scope.registry describes .nested P a →
      P (.object a.className a.properties)) (target : Target) (steps : Nat) :
    Ensures (annotations scope target steps) fun all =>
      ∀ a ∈ all, MadeOn scope.registry describes target P a := by
  have hnil : Ensures (pure [] : Reading (List Annotation)) fun all =>
      ∀ a ∈ all, MadeOn scope.registry describes target P a :=
    ensures_pure fun a ha => by cases ha
  induction steps with
  | zero => exact hnil
  | succ steps ih =>
    refine ensures_seq fun w => ?_
    split
    · exact hnil
    · split
      · refine ensures_bind (ensures_object hdescribes target
          (ensures_value hdescribes rule hobject maxNesting)) fun found hfound => ?_
        refine ensures_bind ih fun rest hrest => ensures_pure ?_
        intro a ha
        obtain ha | ha := List.mem_append.1 ha
        · exact hfound a (Option.mem_toList.1 ha)
        · exact hrest a ha
      · exact ensures_seq fun _ => ih

end Scope

end Reading

section Doc

variable {scope : Scope} {describes : String → AnnotationSchema → Prop}
  (hdescribes : ∀ className s, ClassName.bare className = className →
    (scope.schemaOf className).Returns (some s) → describes className s)
  {target : Target} {input : String} {as : List Annotation} {m n : Memory}
  (h : (readDoc scope target input).result m = (.ok as, n))

include hdescribes h

/-- All annotations of a doc comment are made for its target. -/
theorem madeOn_of_readDoc {P : Value → Prop} (rule : ValueRule scope.registry P)
    (hobject : ∀ a, MadeOn scope.registry describes .nested P a →
      P (.object a.className a.properties)) :
    ∀ a ∈ as, MadeOn scope.registry describes target P a := by
  unfold readDoc at h
  cases hbody : DocText.body? input with
  | none =>
    rw [hbody] at h
    dsimp only at h
    rw [Lookup.result_pure] at h
    obtain ⟨hnil, -⟩ := Prod.mk.inj h
    obtain rfl := Except.ok.inj hnil
    intro a ha
    cases ha
  | some body =>
    rw [hbody] at h
    dsimp only at h
    rw [map_eq_pure_bind] at h
    obtain ⟨found, o, hrun, hlast⟩ := Lookup.bind_eq_ok h
    rw [Lookup.result_pure] at hlast
    obtain ⟨hfound, -⟩ := Prod.mk.inj hlast
    obtain rfl := Except.ok.inj hfound
    exact Reading.ensures_annotations hdescribes rule hobject target _ found.1
      ⟨_, m, found.2, o, hrun⟩

/-- All objects of a doc comment are made. -/
theorem made_of_readDoc : ∀ a ∈ as, ∃ s values, Made scope.registry describes s values a := by
  have hobject (a : Annotation)
      (ha : MadeOn scope.registry describes .nested (MadeValue scope.registry describes) a) :
      MadeValue scope.registry describes (.object a.className a.properties) := by
    obtain ⟨s, values, hmade⟩ := ha.made
    exact .object hmade
  intro a ha
  exact (madeOn_of_readDoc hdescribes h (valueRule_made _ _) hobject a ha).made

end Doc

end Docblock
