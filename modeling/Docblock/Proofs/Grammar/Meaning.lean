import Docblock.Proofs.Grammar.Completeness
import Docblock.Proofs.Grammar.Term
import Docblock.Proofs.Lookup.Answers
import Docblock.Proofs.Lookup.Corresponding

/-!
# What terms mean

A term means a value, nothing where an annotation is passed over, or an error. Its meaning needs no
tokens and no memory: where the schemas of a scope are settled, every reader that is given the
tokens of a term answers with its meaning.
-/

namespace Docblock

namespace Reading

variable {α : Type} {scope : Scope} {w : Window}

theorem answers_except (r : Except AnnotationError α) : Answers scope (liftM r) w r w := by
  intro m hm
  cases r with
  | ok a => exact ⟨m, hm, rfl⟩
  | error e => exact ⟨m, hm, rfl⟩

theorem answers_lookup {x : Lookup α} {r : Except AnnotationError α}
    (h : x.Answers scope.registry r) : Answers scope (liftM x) w r w := by
  intro m hm
  obtain ⟨n, hn, hrun⟩ := h m hm
  refine ⟨n, hn, ?_⟩
  rw [result_lookup, hrun]
  cases r <;> rfl

end Reading

namespace Scope

variable (scope : Scope)

def constantFor (written : String) : Except AnnotationError Value :=
  match scope.constant? written with
  | some v => .ok v
  | none => .error (.undefinedConstant
      (scope.settings.resolvedReference scope.registry written) scope.context)

/-- The schema for the name of an annotation when nothing is remembered. -/
def schemaFor (written : String) : Except AnnotationError (Option AnnotationSchema) :=
  ((scope.schemaNamed written).result .initial).1

/-- What is remembered does not matter to the schemas of names. -/
def IsSettled : Prop :=
  ∀ written, (scope.schemaNamed written).Answers scope.registry (scope.schemaFor written)

variable {scope}

theorem schemaFor_of_answers {written : String}
    {r : Except AnnotationError (Option AnnotationSchema)}
    (h : (scope.schemaNamed written).Answers scope.registry r) : scope.schemaFor written = r := by
  obtain ⟨n, -, hrun⟩ := h .initial (Memory.knows_initial scope.registry)
  unfold schemaFor
  rw [hrun]

end Scope

namespace Grammar

open Reading

variable (scope : Scope) (value : Term → Except AnnotationError (Option Docblock.Value))

def KeyTerm.meaning : KeyTerm → Except AnnotationError Key
  | .literal text => .ok (.ofString text)
  | .constant name => do
    let v ← scope.constantFor name
    match v.key? with
    | some key => return key
    | none => throw (.illegalKey v.typeName scope.context)

def entryMeaning :
    Option KeyTerm × Term → Except AnnotationError (Option Key × Option Docblock.Value)
  | (some key, t) => do
    let key ← key.meaning scope
    return (some key, ← value t)
  | (none, t) => do return (none, ← value t)

def argumentMeaning : Option String × Term → Except AnnotationError (Option Docblock.Argument)
  | (some field, t) => do return (← value t).map (.named field)
  | (none, t) => do return (← value t).map .positional

def entriesMeaning (entries : List (Option KeyTerm × Term)) :
    Except AnnotationError (OrderedMap Docblock.Value) := do
  return (← entries.mapM (entryMeaning scope value)).foldl OrderedMap.addEntry .empty

def argumentsMeaning (arguments : List (Option String × Term)) :
    Except AnnotationError (OrderedMap Docblock.Value) := do
  return Argument.fold ((← arguments.mapM (argumentMeaning value)).filterMap id)

/-- The object of a call on a target, or nothing if its name is passed over. -/
def callMeaning (target : Target) (call : Call) : Except AnnotationError (Option Annotation) := do
  match ← scope.schemaFor call.1 with
  | none => return none
  | some schema =>
    if !target.isEmpty && !schema.target.intersects target then
      throw (.targetNotAllowed call.1 scope.context schema.target)
    let values ← argumentsMeaning value call.2
    return some (← schema.objectOf scope.registry ⟨call.1, scope.context⟩ values)

def meaningWith
    (collection : List (Option KeyTerm × Term) → Except AnnotationError (OrderedMap Docblock.Value))
    (object : Call → Except AnnotationError (Option Annotation)) :
    Term → Except AnnotationError (Option Docblock.Value)
  | .literal v => return some v
  | .constant name => do return some (← scope.constantFor name)
  | .collection entries => do return some (.array (← collection entries))
  | .call name arguments => do
    return (← object (name, arguments)).map fun a => .object a.className a.properties

/-- What a term means where at most so many levels of terms are allowed. -/
def meaning : Nat → Term → Except AnnotationError (Option Docblock.Value)
  | 0 => meaningWith scope (fun _ => throw (.unexpected (.nesting maxNesting) none scope.context))
      fun _ => throw (.unexpected (.nesting maxNesting) none scope.context)
  | room + 1 => meaningWith scope (entriesMeaning scope (meaning room))
      (callMeaning scope (meaning room) .nested)

variable {scope value} {behind : Option Token} {reader : Reading (Option Docblock.Value)}
  {phrase : Phrase Term}

theorem meaning_literal (room : Nat) (v : Docblock.Value) :
    meaning scope room (.literal v) = .ok (some v) := by cases room <;> rfl

theorem meaning_constant (room : Nat) (name : String) :
    meaning scope room (.constant name) = (do return some (← scope.constantFor name)) := by
  cases room <;> rfl

theorem meaning_collection (room : Nat) (entries : List (Option KeyTerm × Term)) :
    meaning scope (room + 1) (.collection entries) = (do
      return some (.array (← entriesMeaning scope (meaning scope room) entries))) := rfl

theorem meaning_call (room : Nat) (name : String) (arguments : List (Option String × Term)) :
    meaning scope (room + 1) (.call name arguments) = (do
      return (← callMeaning scope (meaning scope room) .nested (name, arguments)).map
        fun a => .object a.className a.properties) := rfl

theorem answers_constantNamed (written : String) :
    (scope.constantNamed written).Answers scope.registry (scope.constantFor written) := by
  refine Lookup.answers_bind (g := fun reference =>
      match referenceValue? scope.registry reference with
      | some v => .ok v
      | none => .error (.undefinedConstant reference scope.context))
    (Lookup.answers_recall (Recall.gives_resolveReference scope.settings written))
    fun reference _ => ?_
  cases referenceValue? scope.registry reference with
  | some v => exact Lookup.answers_pure v
  | none => exact Lookup.answers_throw _

theorem answers_constant {used rest : List Token} {name : String} (h : Name used name)
    (hrest : EndsName rest) : Answers scope (constant scope) ⟨behind, used ++ rest⟩
      (scope.constantFor name) ⟨lastPassed behind used, rest⟩ := by
  obtain ⟨hfirst, htail⟩ := h
  rw [constant_eq]
  exact answers_takes_bind (takes_identifier (TokenKind.isClassPart_of_isName hfirst) htail
    (separatorFollows_of_endsName hrest _)) (answers_lookup (answers_constantNamed _))

theorem takes_literalToken {collection : Reading (OrderedMap Docblock.Value)}
    {object : Reading (Option Annotation)} {t : Token} {v : Docblock.Value} (h : Literal t v)
    (rest : List Token) :
    Takes scope (valueWith scope collection object) ⟨behind, t :: rest⟩ (some v)
      ⟨some t, rest⟩ := by
  apply takes_valueWith
  unfold valueAt
  cases h with
  | string ht | integer ht | trueWord ht | falseWord ht | nullWord ht =>
    rw [ht]
    exact takes_literal _
  | float ht hx =>
    rw [ht]
    dsimp only
    rw [hx]
    exact takes_literal _

theorem answers_leaf (collection : Reading (OrderedMap Docblock.Value))
    (object : Reading (Option Annotation)) (room : Nat) :
    AnswersPhrase scope (valueWith scope collection object) Leaf (meaning scope room) := by
  intro behind used rest t h hrest
  cases h with
  | literal hliteral =>
    rw [meaning_literal]
    exact answers_of_takes (takes_literalToken hliteral rest)
  | constant hname =>
    have hanswered : Answers scope (return some (← constant scope)) ⟨behind, used ++ rest⟩
        (do return some (← scope.constantFor _)) ⟨lastPassed behind used, rest⟩ :=
      answers_bind (answers_constant hname hrest.endsName) fun v _ =>
        answers_of_takes (takes_pure (some v))
    rw [meaning_constant]
    obtain ⟨hfirst, -⟩ := hname
    refine answers_valueWith ?_
    rw [valueAt_name hfirst]
    exact hanswered

section Inside

theorem answers_entryKey {t : Token} {key : KeyTerm} {rest : List Token} (h : KeyToken t key)
    (hrest : EndsName rest) : Answers scope (entryKey scope) ⟨behind, t :: rest⟩
      (key.meaning scope) ⟨some t, rest⟩ := by
  refine answers_get_bind ?_
  have hlook : (Window.lookahead ⟨behind, t :: rest⟩).any (fun t => t.kind.isName) =
      t.kind.isName := rfl
  rw [hlook]
  cases h with
  | constant hname =>
    rw [hname]
    have hwritten : Name [t] t.text := by
      have hsingle := Name.mk hname (NameTail.nil t)
      rwa [String.append_empty] at hsingle
    refine answers_bind (answers_constant hwritten hrest) fun v _ => ?_
    cases v.key? with
    | some key => exact answers_of_takes (takes_pure key)
    | none => exact Reading.answers_throw _
  | literal hkind =>
    have hname : t.kind.isName = false := by
      cases hkind with
      | inl hkind => rw [hkind]; rfl
      | inr hkind => rw [hkind]; rfl
    have hkinds : [TokenKind.integer, .string].contains t.kind = true := by
      cases hkind with
      | inl hkind => rw [hkind]; rfl
      | inr hkind => rw [hkind]; rfl
    rw [hname]
    exact answers_of_takes (takes_bind (takes_expectAny hkinds) (takes_pure _))

variable (hvalue : AnswersPhrase scope reader phrase value) (hstarts : Starts phrase startsValue)
  (hunassigned : Unassigned phrase)

include hvalue hunassigned

theorem answers_entry :
    AnswersPhrase scope (entry scope reader) (EntryTerm phrase) (entryMeaning scope value) := by
  intro behind used rest a h hrest
  cases h with
  | plain ht =>
    refine answers_get_bind ?_
    have hglimpse : (Window.glimpse ⟨behind, used ++ rest⟩).any
        (fun t => keySeparators.contains t.kind) = false := by
      change ((used ++ rest)[1]?).any _ = false
      cases hsecond : (used ++ rest)[1]? with
      | none => rfl
      | some t =>
        obtain ⟨hequals, hcolon⟩ := hunassigned _ _ ht rest hrest t hsecond
        simp [keySeparators, hequals, hcolon]
    rw [hglimpse]
    exact answers_bind (hvalue behind _ _ _ ht hrest) fun v _ => answers_of_takes (takes_pure _)
  | @keyed first sep used key t hkey hsep ht =>
    refine answers_get_bind ?_
    have hkinds : keySeparators.contains sep.kind = true := by
      cases hsep with
      | inl hkind => rw [hkind]; rfl
      | inr hkind => rw [hkind]; rfl
    have hglimpse : (Window.glimpse ⟨behind, first :: sep :: used ++ rest⟩).any
        (fun t => keySeparators.contains t.kind) = true := hkinds
    have hname : EndsName (sep :: (used ++ rest)) := by
      intro other hother
      obtain rfl : sep = other := by simpa using hother
      cases hsep with
      | inl hkind => rw [hkind]; exact TokenKind.noConfusion
      | inr hkind => rw [hkind]; exact TokenKind.noConfusion
    rw [hglimpse]
    refine answers_bind (answers_entryKey hkey hname) fun key _ => ?_
    refine answers_takes_bind (takes_expectAny hkinds) ?_
    exact answers_bind (hvalue (some sep) _ _ _ ht hrest) fun v _ =>
      answers_of_takes (takes_pure _)

theorem answers_argument :
    AnswersPhrase scope (argument scope reader) (ArgumentTerm phrase) (argumentMeaning value) := by
  intro behind used rest a h hrest
  cases h with
  | positional ht =>
    refine answers_get_bind ?_
    have hglimpse : (Window.glimpse ⟨behind, used ++ rest⟩).any
        (fun t => t.kind == .equals) = false := by
      change ((used ++ rest)[1]?).any _ = false
      cases hsecond : (used ++ rest)[1]? with
      | none => rfl
      | some t =>
        have hequals := (hunassigned _ _ ht rest hrest t hsecond).1
        simpa using hequals
    rw [hglimpse]
    exact answers_bind (hvalue behind _ _ _ ht hrest) fun v _ => answers_of_takes (takes_pure _)
  | @named first sep used t hkind hsep ht =>
    refine answers_get_bind ?_
    have hglimpse : (Window.glimpse ⟨behind, first :: sep :: used ++ rest⟩).any
        (fun t => t.kind == .equals) = true := by
      change (sep.kind == .equals) = true
      simpa using hsep
    rw [hglimpse]
    refine answers_takes_bind (takes_expect hkind) ?_
    refine answers_takes_bind (takes_expect hsep) ?_
    exact answers_bind (hvalue (some sep) _ _ _ ht hrest) fun v _ =>
      answers_of_takes (takes_pure _)

include hstarts

theorem answers_collection {used : List Token} {entries : List (Option KeyTerm × Term)}
    (h : Bracketed .openBrace .closeBrace (EntryTerm phrase) used entries)
    (behind : Option Token) (rest : List Token) :
    Answers scope (collection scope reader) ⟨behind, used ++ rest⟩
      (entriesMeaning scope value entries) ⟨lastPassed behind used, rest⟩ := by
  cases h with
  | @empty opener closer hopen hclose =>
    refine answers_takes_bind (takes_expect hopen) ?_
    refine answers_takes_bind (takes_isNext hclose) ?_
    exact answers_of_takes (takes_bind takes_skip (takes_pure _))
  | @items opener closer used entries hopen hentries hclose =>
    have hstart : Starts (EntryTerm phrase) startsValue := starts_entryTerm hstarts
    have hsome : Takes scope (isNext .closeBrace) ⟨some opener, used ++ closer :: rest⟩ false
        ⟨some opener, used ++ closer :: rest⟩ := by
      have hcloser : endsValue .closeBrace = true := rfl
      obtain ⟨first, tail, rfl, hfirst⟩ := (starts_separated hstart).ne_closer hcloser hentries
      exact takes_isNext_of_ne hfirst
    have hshape : opener :: (used ++ [closer]) ++ rest = opener :: (used ++ closer :: rest) := by
      simp
    have hlast : lastPassed behind (opener :: (used ++ [closer])) = some closer := by
      rw [lastPassed, lastPassed_append]
      rfl
    rw [hshape, hlast]
    refine answers_takes_bind (takes_expect hopen) ?_
    refine answers_takes_bind hsome ?_
    refine answers_bind (answers_items (answers_entry hvalue hunassigned) hstart rfl
      TokenKind.noConfusion hentries hclose) fun given _ => ?_
    exact answers_of_takes (takes_bind (takes_expect hclose) (takes_pure _))

theorem answers_arguments {used rest : List Token} {arguments : List (Option String × Term)}
    (h : Bracketed .openParen .closeParen (ArgumentTerm phrase) used arguments) :
    Answers scope (Reading.arguments scope reader) ⟨behind, used ++ rest⟩
      (argumentsMeaning value arguments) ⟨lastPassed behind used, rest⟩ := by
  cases h with
  | @empty opener closer hopen hclose =>
    refine answers_takes_bind (takes_isNext hopen) ?_
    refine answers_takes_bind takes_skip ?_
    refine answers_takes_bind (takes_isNext hclose) ?_
    refine answers_takes_bind (takes_pure []) ?_
    exact answers_of_takes (takes_bind (takes_expect hclose) (takes_pure _))
  | @items opener closer used arguments hopen harguments hclose =>
    have hstart := starts_argumentTerm hstarts
    have hshape : opener :: (used ++ [closer]) ++ rest = opener :: (used ++ closer :: rest) := by
      simp
    have hlast : lastPassed behind (opener :: (used ++ [closer])) = some closer := by
      rw [lastPassed, lastPassed_append]
      rfl
    have hsome : Takes scope (isNext .closeParen) ⟨some opener, used ++ closer :: rest⟩ false
        ⟨some opener, used ++ closer :: rest⟩ := by
      have hcloser : endsValue .closeParen = true := rfl
      obtain ⟨first, tail, rfl, hfirst⟩ := (starts_separated hstart).ne_closer hcloser harguments
      exact takes_isNext_of_ne hfirst
    rw [hshape, hlast]
    refine answers_takes_bind (takes_isNext hopen) ?_
    refine answers_takes_bind takes_skip ?_
    refine answers_takes_bind hsome ?_
    refine answers_bind (answers_items (answers_argument hvalue hunassigned) hstart rfl
      TokenKind.noConfusion harguments hclose) fun given _ => ?_
    exact answers_of_takes (takes_bind (takes_expect hclose) (takes_pure _))

end Inside

section Calls

variable {target : Target} {passed : String → Prop} {call : Call} {name : String}
  {used rest : List Token} {w v : Window}

theorem answers_objectNamed {schema : AnnotationSchema}
    {r : Except AnnotationError (OrderedMap Docblock.Value)}
    (h : Answers scope (Reading.arguments scope reader) w r v) :
    Answers scope (objectNamed scope target reader name schema) w
      (do if !target.isEmpty && !schema.target.intersects target then
            throw (.targetNotAllowed name scope.context schema.target)
          let values ← r
          return some (← schema.objectOf scope.registry ⟨name, scope.context⟩ values)) v := by
  unfold objectNamed
  dsimp only
  split
  · exact answers_bind (g := fun _ => _) (Reading.answers_throw (v := v) _) nofun
  · refine answers_bind h fun values _ => ?_
    exact answers_bind (answers_except _) fun a _ => answers_of_takes (takes_pure (some a))

theorem answers_signed (hs : scope.IsSettled) (hname : SignedName used name)
    (hends : separatorFollows ⟨lastPassed behind used, rest⟩ = false)
    {arguments : List (Option String × Term)}
    (hnone : scope.schemaFor name = .ok none → v = ⟨lastPassed behind used, rest⟩)
    (hsome : scope.schemaFor name ≠ .ok none →
      Answers scope (Reading.arguments scope reader) ⟨lastPassed behind used, rest⟩
        (argumentsMeaning value arguments) v) :
    Answers scope (object scope target reader) ⟨behind, used ++ rest⟩
      (callMeaning scope value target (name, arguments)) v := by
  obtain ⟨hsign, hpath⟩ := hname
  obtain ⟨hfirst, htail⟩ := hpath
  rw [object_eq]
  refine answers_takes_bind (takes_expect hsign) ?_
  refine answers_takes_bind (takes_identifier hfirst htail hends) ?_
  unfold callMeaning
  refine answers_bind (answers_lookup (hs _)) fun found hfound => ?_
  cases found with
  | none =>
    rw [hnone hfound]
    exact answers_of_takes (takes_pure none)
  | some schema =>
    refine answers_objectNamed (hsome ?_)
    rw [hfound]
    exact nofun

theorem takes_no_arguments {rest : List Token} (h : ∀ t ∈ rest.head?, t.kind ≠ .openParen) :
    Takes scope (Reading.arguments scope reader) ⟨behind, rest⟩ .empty ⟨behind, rest⟩ := by
  have hnone : Takes scope (isNext .openParen) ⟨behind, rest⟩ false ⟨behind, rest⟩ := by
    cases rest with
    | nil => exact fun m hm => ⟨m, hm, rfl⟩
    | cons t rest => exact takes_isNext_of_ne (h t rfl)
  exact takes_bind hnone (takes_pure _)

theorem answers_bare (hs : scope.IsSettled) (hname : SignedName used name)
    (hends : separatorFollows ⟨lastPassed behind used, rest⟩ = false)
    (hparen : scope.schemaFor name ≠ .ok none → ∀ t ∈ rest.head?, t.kind ≠ .openParen) :
    Answers scope (object scope target reader) ⟨behind, used ++ rest⟩
      (callMeaning scope value target (name, [])) ⟨lastPassed behind used, rest⟩ := by
  refine answers_signed hs hname hends (fun _ => rfl) fun hsome => ?_
  exact answers_of_takes (takes_no_arguments (hparen hsome))

theorem answers_applied (hs : scope.IsSettled)
    (hpassed : ∀ name, scope.schemaFor name = .ok none → passed name)
    (hvalue : AnswersPhrase scope reader phrase value) (hstarts : Starts phrase startsValue)
    (hunassigned : Unassigned phrase) (h : Applied phrase passed used call) (target : Target)
    (behind : Option Token) (rest : List Token) :
    Answers scope (object scope target reader) ⟨behind, used ++ rest⟩
      (callMeaning scope value target call) ⟨lastPassed behind used, rest⟩ := by
  obtain ⟨hname, hnot, harguments⟩ := h
  rw [List.append_assoc, lastPassed_append]
  refine answers_signed hs hname ?_ (fun hnone => absurd (hpassed _ hnone) hnot) fun _ => ?_
  · obtain ⟨opener, others, rfl, hopen⟩ := harguments.starts
    refine separatorFollows_of_endsName ?_ _
    intro t ht
    obtain rfl : opener = t := by simpa using ht
    rw [hopen]
    exact TokenKind.noConfusion
  · exact answers_arguments hvalue hstarts hunassigned harguments

end Calls

theorem answers_sign {collection : Reading (OrderedMap Docblock.Value)}
    {object : Reading (Option Annotation)} {sign : Token} {rest : List Token}
    (hsign : sign.kind = .atSign) {v : Window} {r : Except AnnotationError (Option Annotation)}
    (h : Answers scope object ⟨behind, sign :: rest⟩ r v) :
    Answers scope (valueWith scope collection object) ⟨behind, sign :: rest⟩
      (do return (← r).map fun a => .object a.className a.properties) v := by
  refine answers_valueWith ?_
  unfold valueAt
  rw [hsign]
  exact answers_bind h fun found _ => answers_of_takes (takes_pure _)

/-- Every term is answered with its meaning. -/
theorem answers_written (hs : scope.IsSettled) {passed : String → Prop}
    (hpassed : ∀ name, scope.schemaFor name = .ok none → passed name) (room : Nat) :
    AnswersPhrase scope (Reading.value scope room) (Written passed room) (meaning scope room) := by
  induction room with
  | zero => exact answers_leaf _ _ 0
  | succ room ih =>
    intro behind used rest t h hrest
    cases h with
    | leaf hleaf => exact answers_leaf _ _ (room + 1) behind used rest t hleaf hrest
    | collection hentries =>
      have hanswered := answers_collection ih (starts_written room) (unassigned_written room)
        hentries behind rest
      obtain ⟨opener, more, rfl, hopen⟩ := hentries.starts
      refine answers_valueWith ?_
      unfold valueAt
      rw [hopen]
      exact answers_bind hanswered fun items _ => answers_of_takes (takes_pure _)
    | bare hname =>
      have hparen : ∀ t ∈ rest.head?, t.kind ≠ .openParen := by
        obtain ⟨first, others, rfl, hfirst⟩ := hrest
        intro t ht hkind
        obtain rfl : first = t := by simpa using ht
        rw [hkind] at hfirst
        cases hfirst
      have hends := separatorFollows_of_endsName hrest.endsName (lastPassed behind used)
      obtain ⟨sign, more, rfl, hsign⟩ := hname.starts
      exact answers_sign hsign (answers_bare hs hname hends fun _ => hparen)
    | applied hcall =>
      have hanswered := answers_applied hs hpassed ih (starts_written room)
        (unassigned_written room) hcall .nested behind rest
      obtain ⟨sign, more, rfl, hsign⟩ := hcall.starts
      exact answers_sign hsign hanswered

end Grammar

end Docblock
