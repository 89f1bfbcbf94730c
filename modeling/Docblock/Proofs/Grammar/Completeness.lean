import Docblock.Proofs.Grammar.Phrase
import Docblock.Proofs.Lookup.Run

/-!
# Readers that take what is written

A reader takes a list of tokens if it gives a value and moves behind them, whatever the memory knows
already. Every phrase of the grammar is taken by its reader when a token follows that can end it.
-/

namespace Docblock

def lastPassed (behind : Option Token) : List Token → Option Token
  | [] => behind
  | t :: rest => lastPassed (some t) rest

theorem lastPassed_append (behind : Option Token) (used more : List Token) :
    lastPassed behind (used ++ more) = lastPassed (lastPassed behind used) more := by
  induction used generalizing behind with
  | nil => rfl
  | cons t rest ih => exact ih (some t)

namespace Reading

variable {α β : Type}

def Takes (scope : Scope) (x : Reading α) (w : Window) (a : α) (v : Window) : Prop :=
  ∀ m, m.Knows scope.registry → ∃ n, n.Knows scope.registry ∧ x.result w m = (.ok (a, v), n)

variable {scope : Scope} {w u v : Window}

theorem takes_pure (a : α) : Takes scope (pure a) w a w := fun m hm => ⟨m, hm, rfl⟩

theorem takes_bind {x : Reading α} {f : α → Reading β} {a : α} {b : β}
    (hx : Takes scope x w a u) (hf : Takes scope (f a) u b v) : Takes scope (x >>= f) w b v := by
  intro m hm
  obtain ⟨n, hn, hrun⟩ := hx m hm
  obtain ⟨o, ho, hlast⟩ := hf n hn
  refine ⟨o, ho, ?_⟩
  rw [result_bind_ok hrun]
  exact hlast

theorem takes_get_bind {f : Window → Reading β} {b : β} (h : Takes scope (f w) w b v) :
    Takes scope (get >>= f) w b v := h

theorem takes_recall {x : Recall α} {a : α} (h : x.Gives scope.registry a) :
    Takes scope (liftM x) w a w := by
  intro m hm
  obtain ⟨n, hn, hrun⟩ := h m hm
  refine ⟨n, hn, ?_⟩
  rw [result_recall, hrun]

theorem takes_skip : Takes scope skip w () w.advance := fun m hm => ⟨m, hm, rfl⟩

/-- At `w` the reader gives the value and moves to `v`, or it fails with the error. -/
def Answers (scope : Scope) (x : Reading α) (w : Window) (r : Except AnnotationError α)
    (v : Window) : Prop :=
  ∀ m, m.Knows scope.registry → ∃ n, n.Knows scope.registry ∧
    x.result w m = (r.map fun a => (a, v), n)

theorem answers_of_takes {x : Reading α} {a : α} (h : Takes scope x w a v) :
    Answers scope x w (.ok a) v := h

theorem answers_throw (e : AnnotationError) :
    Answers scope (throw e : Reading α) w (.error e) v := fun m hm => ⟨m, hm, rfl⟩

theorem answers_bind {x : Reading α} {f : α → Reading β} {r : Except AnnotationError α}
    {g : α → Except AnnotationError β} (hx : Answers scope x w r u)
    (hf : ∀ a, r = .ok a → Answers scope (f a) u (g a) v) :
    Answers scope (x >>= f) w (r >>= g) v := by
  intro m hm
  obtain ⟨n, hn, hrun⟩ := hx m hm
  cases r with
  | error e => exact ⟨n, hn, result_bind_error hrun⟩
  | ok a =>
    rw [result_bind_ok hrun]
    exact hf a rfl n hn

theorem answers_takes_bind {x : Reading α} {f : α → Reading β} {a : α}
    {r : Except AnnotationError β} (hx : Takes scope x w a u)
    (hf : Answers scope (f a) u r v) : Answers scope (x >>= f) w r v := by
  intro m hm
  obtain ⟨n, hn, hrun⟩ := hx m hm
  rw [result_bind_ok hrun]
  exact hf n hn

theorem answers_get_bind {f : Window → Reading β} {r : Except AnnotationError β}
    (h : Answers scope (f w) w r v) : Answers scope (get >>= f) w r v := h

variable {behind : Option Token} {t : Token} {rest : List Token}

theorem takes_isNext {kind : TokenKind} (h : t.kind = kind) :
    Takes scope (isNext kind) ⟨behind, t :: rest⟩ true ⟨behind, t :: rest⟩ := by
  intro m hm
  have hnext : Window.isNext ⟨behind, t :: rest⟩ kind = true := by
    change (t.kind == kind) = true
    simpa using h
  rw [result_isNext, hnext]
  exact ⟨m, hm, rfl⟩

theorem takes_isNext_of_ne {kind : TokenKind} (h : t.kind ≠ kind) :
    Takes scope (isNext kind) ⟨behind, t :: rest⟩ false ⟨behind, t :: rest⟩ := by
  intro m hm
  have hnext : Window.isNext ⟨behind, t :: rest⟩ kind = false := by
    change (t.kind == kind) = false
    simpa using h
  rw [result_isNext, hnext]
  exact ⟨m, hm, rfl⟩

theorem takes_expectAny {kinds : List TokenKind} (h : kinds.contains t.kind = true) :
    Takes scope (expectAny scope kinds) ⟨behind, t :: rest⟩ t ⟨some t, rest⟩ := by
  intro m hm
  refine ⟨m, hm, ?_⟩
  unfold expectAny
  rw [result_get_bind]
  change (if kinds.contains t.kind then _ else _ : Reading Token).result _ _ = _
  rw [if_pos h]
  rfl

theorem takes_expect {kind : TokenKind} (h : t.kind = kind) :
    Takes scope (expect scope kind) ⟨behind, t :: rest⟩ t ⟨some t, rest⟩ :=
  takes_expectAny (by rw [h]; simp)

def valueAt (scope : Scope) (collection : Reading (OrderedMap Value))
    (object : Reading (Option Annotation)) (t : Token) : Reading (Option Value) :=
  match t.kind with
  | .openBrace => return some (.array (← collection))
  | .atSign => return (← object).map fun a => .object a.className a.properties
  | .identifier | .qualifiedName => return some (← constant scope)
  | .string => literal (.string t.text)
  | .integer => literal (.int (Decimal.readSaturating t.text.toList))
  | .float =>
    match Decimal.readFloat? t.text.toList with
    | some x => literal (.float x)
    | none => unexpected scope .value
  | .trueWord => literal (.bool true)
  | .falseWord => literal (.bool false)
  | .nullWord => literal .null
  | _ => unexpected scope .value

theorem valueAt_name {collection : Reading (OrderedMap Value)}
    {object : Reading (Option Annotation)} (h : t.kind.isName = true) :
    valueAt scope collection object t = (return some (← constant scope)) := by
  unfold valueAt
  cases hkind : t.kind <;> rw [hkind] at h <;> first | rfl | cases h

theorem takes_valueWith {collection : Reading (OrderedMap Value)}
    {object : Reading (Option Annotation)} {v : Option Value}
    (h : Takes scope (valueAt scope collection object t) ⟨behind, t :: rest⟩ v u) :
    Takes scope (valueWith scope collection object) ⟨behind, t :: rest⟩ v u := h

theorem answers_valueWith {collection : Reading (OrderedMap Value)}
    {object : Reading (Option Annotation)} {r : Except AnnotationError (Option Value)}
    (h : Answers scope (valueAt scope collection object t) ⟨behind, t :: rest⟩ r u) :
    Answers scope (valueWith scope collection object) ⟨behind, t :: rest⟩ r u := h

theorem takes_literal (v : Value) :
    Takes scope (literal v) ⟨behind, t :: rest⟩ (some v) ⟨some t, rest⟩ :=
  takes_bind takes_skip (takes_pure (some v))

end Reading

namespace Grammar

open Reading

variable {scope : Scope} {behind : Option Token}

theorem separatorFollows_of_endsName {rest : List Token} (h : EndsName rest)
    (behind : Option Token) : separatorFollows ⟨behind, rest⟩ = false := by
  cases behind with
  | none => rfl
  | some before =>
    cases rest with
    | nil => rfl
    | cons t others =>
      have ht : (t.kind == .separator) = false := by simpa using h t rfl
      change (t.kind == .separator && before.isAdjacent t) = false
      rw [ht]
      rfl

theorem takes_nameParts {before : Token} {used rest : List Token} {s : String}
    (h : NameTail before used s)
    (hrest : separatorFollows ⟨lastPassed (some before) used, rest⟩ = false) {steps : Nat}
    (hsteps : used.length ≤ steps) :
    Takes scope (nameParts scope steps) ⟨some before, used ++ rest⟩ s
      ⟨lastPassed (some before) used, rest⟩ := by
  induction h generalizing steps with
  | nil before =>
    cases steps with
    | zero => exact takes_pure ""
    | succ steps =>
      refine takes_get_bind ?_
      have hstop : separatorFollows ⟨some before, [] ++ rest⟩ = false := hrest
      rw [hstop]
      exact takes_pure ""
  | @cons before sep part used s hsep hadjacent hpart htail ih =>
    cases steps with
    | zero => cases hsteps
    | succ steps =>
      have hfollows : separatorFollows ⟨some before, sep :: part :: used ++ rest⟩ = true := by
        change (sep.kind == .separator && before.isAdjacent sep) = true
        rw [hsep, hadjacent]
        rfl
      have hparts : classParts.contains part.kind = true := by
        cases hkind : part.kind <;> rw [hkind] at hpart <;> first | rfl | cases hpart
      have hfewer : used.length ≤ steps := by
        simp only [List.length_cons] at hsteps
        omega
      refine takes_get_bind ?_
      rw [hfollows]
      refine takes_bind (takes_expect hsep) ?_
      refine takes_bind (takes_expectAny hparts) ?_
      exact takes_bind (ih hrest hfewer) (takes_pure _)

theorem takes_identifier {first : Token} {used rest : List Token} {s : String}
    (hfirst : first.kind.isClassPart = true) (h : NameTail first used s)
    (hrest : separatorFollows ⟨lastPassed (some first) used, rest⟩ = false) :
    Takes scope (identifier scope) ⟨behind, first :: used ++ rest⟩ (first.text ++ s)
      ⟨lastPassed (some first) used, rest⟩ := by
  have hparts : classParts.contains first.kind = true := by
    cases hkind : first.kind <;> rw [hkind] at hfirst <;> first | rfl | cases hfirst
  have hnext : Window.isNextAny ⟨behind, first :: used ++ rest⟩ classParts = true := hparts
  refine takes_get_bind ?_
  rw [hnext]
  refine takes_bind (takes_expectAny hparts) ?_
  refine takes_get_bind ?_
  refine takes_bind (takes_nameParts h hrest ?_) (takes_pure _)
  change used.length ≤ (used ++ rest).length
  rw [List.length_append]
  omega

theorem takes_constant {used rest : List Token} {written : String} {v : Docblock.Value}
    (h : Name used written) (hv : scope.constant? written = some v) (hrest : EndsName rest) :
    Takes scope (constant scope) ⟨behind, used ++ rest⟩ v ⟨lastPassed behind used, rest⟩ := by
  obtain ⟨hfirst, htail⟩ := h
  refine takes_bind (takes_identifier (TokenKind.isClassPart_of_isName hfirst) htail
    (separatorFollows_of_endsName hrest _)) ?_
  refine takes_bind (takes_recall (Recall.gives_resolveReference scope.settings _)) ?_
  unfold Scope.constant? at hv
  rw [hv]
  exact takes_pure v

theorem takes_plain {collection : Reading (OrderedMap Docblock.Value)}
    {object : Reading (Option Annotation)} {used rest : List Token} {v : Docblock.Value}
    (h : Plain scope used v) (hrest : Ends rest) :
    Takes scope (valueWith scope collection object) ⟨behind, used ++ rest⟩ (some v)
      ⟨lastPassed behind used, rest⟩ := by
  cases h with
  | string ht | integer ht | trueWord ht | falseWord ht | nullWord ht =>
    apply takes_valueWith
    unfold valueAt
    rw [ht]
    exact takes_literal _
  | float ht hx =>
    apply takes_valueWith
    unfold valueAt
    rw [ht]
    dsimp only
    rw [hx]
    exact takes_literal _
  | name hname hv =>
    have htaken : Takes scope (return some (← constant scope)) ⟨behind, used ++ rest⟩ (some v)
        ⟨lastPassed behind used, rest⟩ :=
      takes_bind (takes_constant hname hv hrest.endsName) (takes_pure (some v))
    obtain ⟨hfirst, htail⟩ := hname
    apply takes_valueWith
    rw [valueAt_name hfirst]
    exact htaken

/-- The reader answers every phrase that ends where a value may end. -/
def AnswersPhrase {α β : Type} (scope : Scope) (x : Reading β) (phrase : Phrase α)
    (f : α → Except AnnotationError β) : Prop :=
  ∀ behind used rest a, phrase used a → Ends rest →
    Answers scope x ⟨behind, used ++ rest⟩ (f a) ⟨lastPassed behind used, rest⟩

def TakesPhrase {α β : Type} (scope : Scope) (x : Reading β) (phrase : Phrase α) (f : α → β) :
    Prop :=
  ∀ behind used rest a, phrase used a → Ends rest →
    Takes scope x ⟨behind, used ++ rest⟩ (f a) ⟨lastPassed behind used, rest⟩

section Items

variable {α β : Type} {item : Phrase α} {x : Reading β} {f : α → Except AnnotationError β}
  {closer : TokenKind} {t : Token} {rest : List Token}

theorem takes_noMore (ht : t.kind ≠ .comma) (steps : Nat) :
    Takes scope (moreItems closer x steps) ⟨behind, t :: rest⟩ [] ⟨behind, t :: rest⟩ := by
  cases steps with
  | zero => exact takes_pure []
  | succ steps =>
    exact takes_bind (takes_isNext_of_ne ht) (takes_pure [])

theorem takes_trailingComma {comma : Token} (hcomma : comma.kind = .comma) (ht : t.kind = closer)
    {steps : Nat} (hsteps : 0 < steps) :
    Takes scope (moreItems closer x steps) ⟨behind, comma :: t :: rest⟩ []
      ⟨some comma, t :: rest⟩ := by
  cases steps with
  | zero => cases hsteps
  | succ steps =>
    refine takes_bind (takes_isNext hcomma) ?_
    refine takes_bind takes_skip ?_
    exact takes_bind (takes_isNext ht) (takes_pure [])

theorem answers_item (hitem : AnswersPhrase scope x item f) {used : List Token} {a : α}
    (ha : item used a) (hrest : Ends rest) {more : Window → Reading (List β)}
    {r : Except AnnotationError (List β)} {v : Window}
    (hmore : Answers scope (more ⟨lastPassed behind used, rest⟩) ⟨lastPassed behind used, rest⟩ r
      v) :
    Answers scope (do let b ← x; let bs ← more (← get); return b :: bs) ⟨behind, used ++ rest⟩
      (do let b ← f a; let bs ← r; return b :: bs) v := by
  refine answers_bind (hitem behind used rest a ha hrest) fun b _ => answers_get_bind ?_
  exact answers_bind hmore fun bs _ => answers_of_takes (takes_pure (b :: bs))

theorem answers_oneMore (hitem : AnswersPhrase scope x item f) (hstarts : Starts item startsValue)
    (hcloser : endsValue closer = true) {used : List Token} {a : α} (ha : item used a)
    {comma : Token} (hkind : comma.kind = .comma) (hrest : Ends rest) {steps : Nat}
    {r : Except AnnotationError (List β)} {v : Window}
    (hmore : Answers scope (moreItems closer x steps) ⟨lastPassed (some comma) used, rest⟩ r v) :
    Answers scope (moreItems closer x (steps + 1)) ⟨behind, comma :: (used ++ rest)⟩
      (do let b ← f a; let bs ← r; return b :: bs) v := by
  have hopen : Takes scope (isNext closer) ⟨some comma, used ++ rest⟩ false
      ⟨some comma, used ++ rest⟩ := by
    obtain ⟨first, tail, rfl, hfirst⟩ := hstarts.ne_closer hcloser ha
    exact takes_isNext_of_ne hfirst
  refine answers_takes_bind (takes_isNext hkind) ?_
  refine answers_takes_bind takes_skip ?_
  refine answers_takes_bind hopen ?_
  exact answers_item hitem ha hrest hmore

variable (hitem : AnswersPhrase scope x item f) (hstarts : Starts item startsValue)
  (hcloser : endsValue closer = true) (hcomma : closer ≠ .comma)

include hitem hstarts hcloser hcomma

theorem answers_moreItems {used : List Token} {all : List α} (h : Separated item used all)
    {comma : Token} (hkind : comma.kind = .comma) (ht : t.kind = closer) {steps : Nat}
    (hsteps : used.length < steps) :
    Answers scope (moreItems closer x steps) ⟨behind, comma :: (used ++ t :: rest)⟩ (all.mapM f)
      ⟨lastPassed (some comma) used, t :: rest⟩ := by
  have hends : Ends (t :: rest) := ends_cons (by rw [ht]; exact hcloser)
  have hstop : t.kind ≠ .comma := by
    rw [ht]
    exact hcomma
  induction h generalizing behind comma steps with
  | @last used a ha =>
    cases steps with
    | zero => cases hsteps
    | succ steps =>
      rw [List.mapM_cons, List.mapM_nil]
      exact answers_oneMore hitem hstarts hcloser ha hkind hends (takes_noMore hstop steps)
  | @trailing used last a ha hlast =>
    cases steps with
    | zero => cases hsteps
    | succ steps =>
      have hleft : 0 < steps := by
        obtain ⟨first, tail, rfl, -⟩ := hstarts used a ha
        simp only [List.length_append, List.length_cons] at hsteps
        omega
      rw [List.append_assoc, lastPassed_append, List.mapM_cons, List.mapM_nil]
      exact answers_oneMore hitem hstarts hcloser ha hkind (ends_cons (by rw [hlast]; rfl))
        (takes_trailingComma hlast ht hleft)
  | @more used others last a all ha hlast hmore ih =>
    cases steps with
    | zero => cases hsteps
    | succ steps =>
      have hleft : others.length < steps := by
        simp only [List.length_append, List.length_cons] at hsteps
        omega
      rw [List.append_assoc, lastPassed_append, List.mapM_cons]
      exact answers_oneMore hitem hstarts hcloser ha hkind (ends_cons (by rw [hlast]; rfl))
        (ih hlast hleft)

theorem answers_items {used : List Token} {all : List α} (h : Separated item used all)
    (ht : t.kind = closer) :
    Answers scope (items closer x) ⟨behind, used ++ t :: rest⟩ (all.mapM f)
      ⟨lastPassed behind used, t :: rest⟩ := by
  have hends : Ends (t :: rest) := ends_cons (by rw [ht]; exact hcloser)
  have hstop : t.kind ≠ .comma := by
    rw [ht]
    exact hcomma
  cases h with
  | last ha =>
    rw [List.mapM_cons, List.mapM_nil]
    exact answers_item hitem ha hends (takes_noMore hstop _)
  | @trailing used comma a ha hkind =>
    rw [List.append_assoc, lastPassed_append, List.mapM_cons, List.mapM_nil]
    exact answers_item hitem ha (ends_cons (by rw [hkind]; rfl))
      (takes_trailingComma hkind ht (Nat.zero_lt_succ _))
  | @more used others comma a all ha hkind hmore =>
    rw [List.append_assoc, lastPassed_append, List.mapM_cons]
    refine answers_item hitem ha (ends_cons (by rw [hkind]; rfl))
      (answers_moreItems hitem hstarts hcloser hcomma hmore hkind ht ?_)
    change others.length < (comma :: (others ++ t :: rest)).length
    simp only [List.length_cons, List.length_append]
    omega

end Items

theorem takes_items {α β : Type} {item : Phrase α} {x : Reading β} {f : α → β}
    (hitem : TakesPhrase scope x item f) (hstarts : Starts item startsValue) {closer : TokenKind}
    (hcloser : endsValue closer = true) (hcomma : closer ≠ .comma) {used rest : List Token}
    {all : List α} (h : Separated item used all) {t : Token} (ht : t.kind = closer) :
    Takes scope (items closer x) ⟨behind, used ++ t :: rest⟩ (all.map f)
      ⟨lastPassed behind used, t :: rest⟩ := by
  have hall : all.mapM (fun a => (.ok (f a) : Except AnnotationError β)) = .ok (all.map f) :=
    List.mapM_pure
  change Answers scope _ _ (.ok (all.map f)) _
  rw [← hall]
  exact answers_items (f := fun a => .ok (f a)) hitem hstarts hcloser hcomma h ht

section Inside

variable {value : Phrase Docblock.Value} {reader : Reading (Option Docblock.Value)}

theorem takes_entryKey {t : Token} {key : Key} {rest : List Token} (h : EntryKey scope t key)
    (hrest : EndsName rest) :
    Takes scope (entryKey scope) ⟨behind, t :: rest⟩ key ⟨some t, rest⟩ := by
  refine takes_get_bind ?_
  have hlook : (Window.lookahead ⟨behind, t :: rest⟩).any (fun t => t.kind.isName) =
      t.kind.isName := rfl
  rw [hlook]
  cases h with
  | @constant v key hname hv hkey =>
    rw [hname]
    have hwritten : Name [t] t.text := by
      have hsingle := Name.mk hname (NameTail.nil t)
      rwa [String.append_empty] at hsingle
    refine takes_bind (takes_constant hwritten hv hrest) ?_
    rw [hkey]
    exact takes_pure key
  | literal hkind =>
    have hname : t.kind.isName = false := by
      cases hkind with
      | inl hkind => rw [hkind]; rfl
      | inr hkind => rw [hkind]; rfl
    have hkinds : [TokenKind.integer, .string].contains t.kind = true := by
      cases hkind with
      | inl hkind => rw [hkind]; rfl
      | inr hkind => rw [hkind]; rfl
    rw [hname]
    exact takes_bind (takes_expectAny hkinds) (takes_pure _)

theorem takes_entry (hvalue : TakesPhrase scope reader value some)
    (hunassigned : Unassigned value) :
    TakesPhrase scope (entry scope reader) (Entry scope value)
      (fun given => (given.1, some given.2)) := by
  intro behind used rest a h hrest
  cases h with
  | plain hv =>
    refine takes_get_bind ?_
    have hglimpse : (Window.glimpse ⟨behind, used ++ rest⟩).any
        (fun t => keySeparators.contains t.kind) = false := by
      change ((used ++ rest)[1]?).any _ = false
      cases hsecond : (used ++ rest)[1]? with
      | none => rfl
      | some t =>
        obtain ⟨hequals, hcolon⟩ := hunassigned _ _ hv rest hrest t hsecond
        simp [keySeparators, hequals, hcolon]
    rw [hglimpse]
    exact takes_bind (hvalue behind _ _ _ hv hrest) (takes_pure _)
  | @keyed t sep used key v hkey hsep hv =>
    refine takes_get_bind ?_
    have hkinds : keySeparators.contains sep.kind = true := by
      cases hsep with
      | inl hkind => rw [hkind]; rfl
      | inr hkind => rw [hkind]; rfl
    have hglimpse : (Window.glimpse ⟨behind, t :: sep :: used ++ rest⟩).any
        (fun t => keySeparators.contains t.kind) = true := hkinds
    have hname : EndsName (sep :: (used ++ rest)) := by
      intro other hother
      obtain rfl : sep = other := by simpa using hother
      cases hsep with
      | inl hkind => rw [hkind]; exact TokenKind.noConfusion
      | inr hkind => rw [hkind]; exact TokenKind.noConfusion
    rw [hglimpse]
    refine takes_bind (takes_entryKey hkey hname) ?_
    refine takes_bind (takes_expectAny hkinds) ?_
    exact takes_bind (hvalue (some sep) _ _ _ hv hrest) (takes_pure _)

theorem takes_collection (hvalue : TakesPhrase scope reader value some)
    (hstarts : Starts value startsValue) (hunassigned : Unassigned value) {used rest : List Token}
    {items : OrderedMap Docblock.Value} (h : Collection scope value used items) :
    Takes scope (collection scope reader) ⟨behind, used ++ rest⟩ items
      ⟨lastPassed behind used, rest⟩ := by
  cases h with
  | @empty opener closer hopen hclose =>
    refine takes_bind (takes_expect hopen) ?_
    refine takes_bind (takes_isNext hclose) ?_
    exact takes_bind takes_skip (takes_pure _)
  | @entries opener closer used entries hopen hentries hclose =>
    have hstart : Starts (Entry scope value) startsValue := starts_entry hstarts
    have hsome : Takes scope (isNext .closeBrace) ⟨some opener, used ++ closer :: rest⟩ false
        ⟨some opener, used ++ closer :: rest⟩ := by
      have hcloser : endsValue .closeBrace = true := rfl
      obtain ⟨first, tail, rfl, hfirst⟩ := (starts_separated hstart).ne_closer hcloser hentries
      exact takes_isNext_of_ne hfirst
    have hshape : opener :: (used ++ [closer]) ++ rest = opener :: (used ++ closer :: rest) := by
      simp
    have hlast : lastPassed behind (opener :: (used ++ [closer])) = some closer := by
      rw [lastPassed, lastPassed_append]
      rfl
    rw [hshape, hlast]
    refine takes_bind (takes_expect hopen) ?_
    refine takes_bind hsome ?_
    refine takes_bind (takes_items (takes_entry hvalue hunassigned) hstart rfl
      TokenKind.noConfusion hentries hclose) ?_
    exact takes_bind (takes_expect hclose) (takes_pure _)

theorem takes_argument (hvalue : TakesPhrase scope reader value some)
    (hunassigned : Unassigned value) :
    TakesPhrase scope (argument scope reader) (Argument value) some := by
  intro behind used rest a h hrest
  cases h with
  | positional hv =>
    refine takes_get_bind ?_
    have hglimpse : (Window.glimpse ⟨behind, used ++ rest⟩).any
        (fun t => t.kind == .equals) = false := by
      change ((used ++ rest)[1]?).any _ = false
      cases hsecond : (used ++ rest)[1]? with
      | none => rfl
      | some t =>
        have hequals := (hunassigned _ _ hv rest hrest t hsecond).1
        simpa using hequals
    rw [hglimpse]
    exact takes_bind (hvalue behind _ _ _ hv hrest) (takes_pure _)
  | @named t sep used v hkind hsep hv =>
    refine takes_get_bind ?_
    have hglimpse : (Window.glimpse ⟨behind, t :: sep :: used ++ rest⟩).any
        (fun t => t.kind == .equals) = true := by
      change (sep.kind == .equals) = true
      simpa using hsep
    rw [hglimpse]
    refine takes_bind (takes_expect hkind) ?_
    refine takes_bind (takes_expect hsep) ?_
    exact takes_bind (hvalue (some sep) _ _ _ hv hrest) (takes_pure _)

theorem takes_arguments (hvalue : TakesPhrase scope reader value some)
    (hstarts : Starts value startsValue) (hunassigned : Unassigned value) {used rest : List Token}
    {values : OrderedMap Docblock.Value} (h : Arguments value used values) :
    Takes scope (arguments scope reader) ⟨behind, used ++ rest⟩ values
      ⟨lastPassed behind used, rest⟩ := by
  cases h with
  | @empty opener closer hopen hclose =>
    refine takes_bind (takes_isNext hopen) ?_
    refine takes_bind takes_skip ?_
    refine takes_bind (takes_isNext hclose) ?_
    refine takes_bind (takes_pure []) ?_
    exact takes_bind (takes_expect hclose) (takes_pure _)
  | @arguments opener closer used given hopen hgiven hclose =>
    have hstart := starts_argument hstarts
    have hshape : opener :: (used ++ [closer]) ++ rest = opener :: (used ++ closer :: rest) := by
      simp
    have hlast : lastPassed behind (opener :: (used ++ [closer])) = some closer := by
      rw [lastPassed, lastPassed_append]
      rfl
    have hsome : Takes scope (isNext .closeParen) ⟨some opener, used ++ closer :: rest⟩ false
        ⟨some opener, used ++ closer :: rest⟩ := by
      have hcloser : endsValue .closeParen = true := rfl
      obtain ⟨first, tail, rfl, hfirst⟩ := (starts_separated hstart).ne_closer hcloser hgiven
      exact takes_isNext_of_ne hfirst
    have hfold : (given.map some).filterMap id = given := by simp
    rw [hshape, hlast]
    refine takes_bind (takes_isNext hopen) ?_
    refine takes_bind takes_skip ?_
    refine takes_bind hsome ?_
    refine takes_bind (takes_items (takes_argument hvalue hunassigned) hstart rfl
      TokenKind.noConfusion hgiven hclose) ?_
    refine takes_bind (takes_expect hclose) ?_
    rw [hfold]
    exact takes_pure _

end Inside

/-- With room for so many collections inside one another, every such value is taken. -/
theorem takes_value (depth : Nat) :
    TakesPhrase scope (Reading.value scope depth) (Value scope depth) some := by
  induction depth with
  | zero =>
    intro behind used rest v h hrest
    exact takes_plain h hrest
  | succ depth ih =>
    intro behind used rest v h hrest
    obtain h | ⟨items, h, rfl⟩ := h
    · exact takes_plain h hrest
    · have htaken : Takes scope
          (return some (Docblock.Value.array (← collection scope (Reading.value scope depth))))
          ⟨behind, used ++ rest⟩ (some (Docblock.Value.array items))
          ⟨lastPassed behind used, rest⟩ :=
        takes_bind (takes_collection ih (starts_value scope depth) (unassigned_value depth) h)
          (takes_pure _)
      obtain ⟨opener, tail, hused, hopen⟩ : ∃ opener tail, used = opener :: tail ∧
          opener.kind = .openBrace := by
        cases h with
        | empty hopen => exact ⟨_, _, rfl, hopen⟩
        | entries hopen => exact ⟨_, _, rfl, hopen⟩
      subst hused
      refine takes_valueWith ?_
      unfold valueAt
      rw [hopen]
      exact htaken

end Grammar

end Docblock
