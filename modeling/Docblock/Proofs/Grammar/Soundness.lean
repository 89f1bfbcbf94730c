import Docblock.Proofs.Grammar.Defined

/-!
# Readers that yield nothing else

Where no annotation follows and every name is a defined constant, a reader either takes a phrase of
the grammar or fails at an unexpected token.
-/

namespace Docblock

def AnnotationError.IsUnexpected (e : AnnotationError) : Prop :=
  ∃ expected found context, e = .unexpected expected found context

namespace Reading

variable {α β : Type}

/-- At `w` the reader gives what `post` allows, or it fails at an unexpected token. -/
def Yields (scope : Scope) (x : Reading α) (w : Window) (post : α → Window → Prop) : Prop :=
  ∀ m, m.Knows scope.registry →
    (∃ e n, x.result w m = (.error e, n) ∧ e.IsUnexpected) ∨
    ∃ a v n, x.result w m = (.ok (a, v), n) ∧ n.Knows scope.registry ∧ post a v

variable {scope : Scope} {w : Window} {post : α → Window → Prop} {last : β → Window → Prop}

theorem yields_pure {a : α} (h : post a w) : Yields scope (pure a) w post :=
  fun m hm => .inr ⟨a, w, m, rfl, hm, h⟩

theorem yields_unexpected (expected : Expectation) :
    Yields scope (unexpected scope expected : Reading α) w post := by
  intro m _
  exact .inl ⟨_, m, rfl, _, _, _, rfl⟩

theorem yields_bind {x : Reading α} {f : α → Reading β} (hx : Yields scope x w post)
    (hf : ∀ a v, post a v → Yields scope (f a) v last) : Yields scope (x >>= f) w last := by
  intro m hm
  obtain ⟨e, n, hrun, he⟩ | ⟨a, v, n, hrun, hn, hpost⟩ := hx m hm
  · exact .inl ⟨e, n, result_bind_error hrun, he⟩
  · rw [result_bind_ok hrun]
    exact hf a v hpost n hn

theorem yields_get_bind {f : Window → Reading β} (h : Yields scope (f w) w last) :
    Yields scope (get >>= f) w last := h

theorem yields_of_takes {x : Reading α} {a : α} {v : Window} (h : Takes scope x w a v)
    (hpost : post a v) : Yields scope x w post := by
  intro m hm
  obtain ⟨n, hn, hrun⟩ := h m hm
  exact .inr ⟨a, v, n, hrun, hn, hpost⟩

theorem yields_takes_bind {x : Reading α} {f : α → Reading β} {a : α} {v : Window}
    (hx : Takes scope x w a v) (hf : Yields scope (f a) v last) :
    Yields scope (x >>= f) w last := by
  intro m hm
  obtain ⟨n, hn, hrun⟩ := hx m hm
  rw [result_bind_ok hrun]
  exact hf n hn

theorem yields_isNext_bind {kind : TokenKind} {f : Bool → Reading β}
    (h : Yields scope (f (w.isNext kind)) w last) : Yields scope (isNext kind >>= f) w last := h

theorem yields_skip_bind {f : Unit → Reading β} (h : Yields scope (f ()) w.advance last) :
    Yields scope (skip >>= f) w last := h

theorem yields_expectAny {kinds : List TokenKind} :
    Yields scope (expectAny scope kinds) w fun t v => ∃ rest, w.ahead = t :: rest ∧
      kinds.contains t.kind = true ∧ v = ⟨some t, rest⟩ := by
  obtain ⟨behind, ahead⟩ := w
  refine yields_get_bind ?_
  cases ahead with
  | nil => exact yields_unexpected _
  | cons t rest =>
    change Yields scope (if kinds.contains t.kind then _ else _) _ _
    split
    · next hkind => exact yields_skip_bind (yields_pure ⟨rest, rfl, hkind, rfl⟩)
    · exact yields_unexpected _

theorem yields_expect {kind : TokenKind} :
    Yields scope (expect scope kind) w fun t v => ∃ rest, w.ahead = t :: rest ∧
      t.kind = kind ∧ v = ⟨some t, rest⟩ := by
  intro m hm
  have hany : Yields scope (expectAny scope [kind]) w fun t v => ∃ rest, w.ahead = t :: rest ∧
      [kind].contains t.kind = true ∧ v = ⟨some t, rest⟩ := yields_expectAny
  obtain herror | ⟨t, v, n, hrun, hn, rest, hahead, hkind, hv⟩ := hany m hm
  · exact .inl herror
  · refine .inr ⟨t, v, n, hrun, hn, rest, hahead, ?_, hv⟩
    simpa using hkind

end Reading

namespace Grammar

open Reading

variable {scope : Scope} {depth : Nat}

def Passes {α β : Type} (scope : Scope) (depth : Nat) (w : Window) (phrase : Phrase α) (f : α → β)
    (b : β) (v : Window) : Prop :=
  ∃ used rest a, w.ahead = used ++ rest ∧ phrase used a ∧ b = f a ∧
    v = ⟨lastPassed w.behind used, rest⟩ ∧ Clean scope depth v

theorem braceDepth_of_isClassPart {kind : TokenKind} (h : kind.isClassPart = true) :
    braceDepth depth kind = depth := by
  cases kind <;> first | rfl | cases h

theorem isClassPart_of_contains {kind : TokenKind} (h : classParts.contains kind = true) :
    kind.isClassPart = true := by
  cases kind <;> first | rfl | cases h

/-- The parts behind the first token of a name are all that continue it. -/
theorem yields_nameParts {before : Token} {ahead : List Token} {steps : Nat}
    (hclean : Clean scope depth ⟨some before, ahead⟩) (hsteps : ahead.length ≤ steps) :
    Yields scope (nameParts scope steps) ⟨some before, ahead⟩ fun s v =>
      Passes scope depth ⟨some before, ahead⟩ (NameTail before) id s v ∧ s = tailText before ahead := by
  induction steps generalizing before ahead with
  | zero =>
    obtain rfl : ahead = [] := List.length_eq_zero_iff.1 (Nat.le_zero.1 hsteps)
    exact yields_pure ⟨⟨[], [], "", rfl, .nil before, rfl, rfl, hclean⟩, rfl⟩
  | succ steps ih =>
    refine yields_get_bind ?_
    cases hfollows : separatorFollows ⟨some before, ahead⟩ with
    | false =>
      refine yields_pure ⟨⟨[], ahead, "", rfl, .nil before, rfl, rfl, hclean⟩, ?_⟩
      cases ahead with
      | nil => rfl
      | cons sep rest =>
        cases rest with
        | nil => rfl
        | cons part rest =>
          have hstop : (sep.kind == .separator && before.isAdjacent sep) = false := hfollows
          rw [tailText, hstop]
          rfl
    | true =>
      refine yields_bind yields_expect fun sep v hsep => ?_
      obtain ⟨rest, rfl, hkind, rfl⟩ := hsep
      refine yields_bind yields_expectAny fun part v hpart => ?_
      obtain ⟨others, rfl, hparts, rfl⟩ := hpart
      have hclass := isClassPart_of_contains hparts
      have hadjacent : before.isAdjacent sep = true := by
        have hboth : (sep.kind == .separator && before.isAdjacent sep) = true := hfollows
        exact (Bool.and_eq_true _ _ ▸ hboth).2
      have hnext : Clean scope depth ⟨some part, others⟩ := by
        have hpassed := hclean.step.step
        rwa [hkind, braceDepth_of_isClassPart hclass] at hpassed
      have hfewer : others.length ≤ steps := by
        simp only [List.length_cons] at hsteps
        omega
      refine yields_bind (ih hnext hfewer) fun s v hs => ?_
      obtain ⟨⟨used, left, _, hleft, htail, rfl, rfl, hlast⟩, htext⟩ := hs
      refine yields_pure ⟨⟨sep :: part :: used, left, "\\" ++ part.text ++ s, ?_,
        .cons hkind hadjacent hclass htail, rfl, rfl, hlast⟩, ?_⟩
      · exact congrArg (fun tokens => sep :: part :: tokens) hleft
      · rw [tailText, hkind, hadjacent, hclass]
        exact congrArg (fun text => "\\" ++ part.text ++ text) htext

theorem yields_constant {behind : Option Token} {first : Token} {ahead : List Token}
    (hclean : Clean scope depth ⟨behind, first :: ahead⟩) (hname : first.kind.isName = true)
    {v : Docblock.Value} (hv : scope.constant? (first.text ++ tailText first ahead) = some v) :
    Yields scope (constant scope) ⟨behind, first :: ahead⟩ fun b w =>
      b = v ∧ ∃ used rest, ahead = used ++ rest ∧
        NameTail first used (tailText first ahead) ∧
        w = ⟨lastPassed (some first) used, rest⟩ ∧ Clean scope depth w := by
  have hclass := TokenKind.isClassPart_of_isName hname
  have hparts : classParts.contains first.kind = true := by
    cases hkind : first.kind <;> rw [hkind] at hclass <;> first | rfl | cases hclass
  have hnext : Clean scope depth ⟨some first, ahead⟩ := by
    have hpassed := hclean.step
    rwa [braceDepth_of_isClassPart hclass] at hpassed
  have hwritten : Yields scope (identifier scope) ⟨behind, first :: ahead⟩ fun s w =>
      s = first.text ++ tailText first ahead ∧ ∃ used rest, ahead = used ++ rest ∧
        NameTail first used (tailText first ahead) ∧
        w = ⟨lastPassed (some first) used, rest⟩ ∧ Clean scope depth w := by
    refine yields_get_bind ?_
    have hany : Window.isNextAny ⟨behind, first :: ahead⟩ classParts = true := hparts
    rw [hany]
    refine yields_takes_bind (takes_expectAny hparts) (yields_get_bind ?_)
    refine yields_bind (yields_nameParts hnext (Nat.le_refl _)) fun s w hs => ?_
    obtain ⟨⟨used, rest, _, hahead, htail, rfl, rfl, hlast⟩, htext⟩ := hs
    refine yields_pure ⟨congrArg (fun text => first.text ++ text) htext, used, rest, hahead, ?_, rfl,
      hlast⟩
    rw [← htext]
    exact htail
  refine yields_bind hwritten fun s w hs => ?_
  obtain ⟨rfl, hpassed⟩ := hs
  refine yields_takes_bind (takes_recall (Recall.gives_resolveReference scope.settings _)) ?_
  unfold Scope.constant? at hv
  rw [hv]
  exact yields_pure ⟨rfl, hpassed⟩

/-- The reader yields only values of the phrase, where a name would be a constant. -/
def YieldsValues (scope : Scope) (reader : Reading (Option Docblock.Value))
    (value : Phrase Docblock.Value) : Prop :=
  ∀ depth w, Clean scope depth w → NameReady scope w →
    Yields scope reader w (Passes scope depth w value some)

theorem passes_single {value : Phrase Docblock.Value} {behind : Option Token} {t : Token}
    {rest : List Token} {v : Docblock.Value} (hclean : Clean scope depth ⟨behind, t :: rest⟩)
    (hkind : braceDepth depth t.kind = depth) (h : value [t] v) :
    Passes scope depth ⟨behind, t :: rest⟩ value some (some v) ⟨some t, rest⟩ := by
  refine ⟨[t], rest, v, rfl, h, rfl, rfl, ?_⟩
  have hpassed := hclean.step
  rwa [hkind] at hpassed

/-- A value is plain, or it starts with a brace and is read as a collection. -/
theorem yields_valueWith {collection : Reading (OrderedMap Docblock.Value)}
    {object : Reading (Option Annotation)} {phrase : Phrase Docblock.Value} {w : Window}
    (hplain : ∀ used v, Plain scope used v → phrase used v) (hclean : Clean scope depth w)
    (hready : NameReady scope w)
    (hbrace : ∀ t rest, w.ahead = t :: rest → t.kind = .openBrace →
      Yields scope (return some (Docblock.Value.array (← collection))) w
        (Passes scope depth w phrase some)) :
    Yields scope (valueWith scope collection object) w (Passes scope depth w phrase some) := by
  obtain ⟨behind, ahead⟩ := w
  cases ahead with
  | nil => exact yields_unexpected _
  | cons t rest =>
    change Yields scope (valueAt scope collection object t) ⟨behind, t :: rest⟩ _
    have hliteral {v : Docblock.Value} (hkind : braceDepth depth t.kind = depth)
        (h : Plain scope [t] v) : Yields scope (literal v) ⟨behind, t :: rest⟩
          (Passes scope depth ⟨behind, t :: rest⟩ phrase some) :=
      yields_of_takes (takes_literal v) (passes_single hclean hkind (hplain _ _ h))
    have hconstant (hname : t.kind.isName = true) :
        Yields scope (return some (← constant scope)) ⟨behind, t :: rest⟩
          (Passes scope depth ⟨behind, t :: rest⟩ phrase some) := by
      obtain ⟨v, hv, -⟩ := hready t rest rfl hname
      refine yields_bind (yields_constant hclean hname hv) fun b w hb => ?_
      obtain ⟨rfl, used, left, hahead, htail, rfl, hlast⟩ := hb
      refine yields_pure ⟨t :: used, left, b, ?_, hplain _ _ (.name (.mk hname htail) hv), rfl, rfl,
        hlast⟩
      exact congrArg (fun tokens => t :: tokens) hahead
    unfold valueAt
    cases hkind : t.kind with
    | openBrace => exact hbrace t rest rfl hkind
    | atSign => exact absurd hkind (hclean.clear t List.mem_cons_self)
    | identifier => exact hconstant (by rw [hkind]; rfl)
    | qualifiedName => exact hconstant (by rw [hkind]; rfl)
    | string => exact hliteral (by rw [hkind]; rfl) (.string hkind)
    | integer => exact hliteral (by rw [hkind]; rfl) (.integer hkind)
    | float =>
      dsimp only
      cases hx : Decimal.readFloat? t.text.toList with
      | some x => exact hliteral (by rw [hkind]; rfl) (.float hkind hx)
      | none => exact yields_unexpected _
    | trueWord => exact hliteral (by rw [hkind]; rfl) (.trueWord hkind)
    | falseWord => exact hliteral (by rw [hkind]; rfl) (.falseWord hkind)
    | nullWord => exact hliteral (by rw [hkind]; rfl) (.nullWord hkind)
    | separator | openParen | closeParen | closeBrace | comma | colon | equals | other =>
      exact yields_unexpected _

section Items

variable {α β : Type} {item : Phrase α} {x : Reading β} {f : α → β}

inductive More (item : Phrase α) : Phrase (List α) where
  | none : More item [] []
  | trailing {comma : Token} : comma.kind = .comma → More item [comma] []
  | more {comma : Token} {used rest : List Token} {a : α} {others : List α} :
      comma.kind = .comma → item used a → More item rest others →
      More item (comma :: (used ++ rest)) (a :: others)

theorem separated_of_more {used rest : List Token} {a : α} {others : List α} (ha : item used a)
    (h : More item rest others) : Separated item (used ++ rest) (a :: others) := by
  induction h generalizing used a with
  | none =>
    rw [List.append_nil]
    exact .last ha
  | trailing hcomma => exact .trailing ha hcomma
  | more hcomma hb _ ih => exact .more ha hcomma (ih hb)

def YieldsItems (scope : Scope) (depth : Nat) (opener : TokenKind) (x : Reading β)
    (item : Phrase α) (f : α → β) : Prop :=
  ∀ b ahead, b.kind = opener ∨ b.kind = .comma → Clean scope depth ⟨some b, ahead⟩ →
    Yields scope x ⟨some b, ahead⟩ (Passes scope depth ⟨some b, ahead⟩ item f)

theorem yields_moreItems {opener closer : TokenKind}
    (hitem : YieldsItems scope depth opener x item f) {steps : Nat} {w : Window}
    (hclean : Clean scope depth w) :
    Yields scope (moreItems closer x steps) w
      (Passes scope depth w (More item) (List.map f)) := by
  induction steps generalizing w with
  | zero => exact yields_pure ⟨[], w.ahead, [], rfl, .none, rfl, rfl, hclean⟩
  | succ steps ih =>
    obtain ⟨behind, ahead⟩ := w
    refine yields_isNext_bind ?_
    cases hnext : Window.isNext ⟨behind, ahead⟩ .comma with
    | false => exact yields_pure ⟨[], ahead, [], rfl, .none, rfl, rfl, hclean⟩
    | true =>
      cases ahead with
      | nil => cases hnext
      | cons comma rest =>
        have hcomma : comma.kind = .comma := by
          have hkind : (comma.kind == .comma) = true := hnext
          simpa using hkind
        have hpassed : Clean scope depth ⟨some comma, rest⟩ := by
          have hstep := hclean.step
          rwa [hcomma] at hstep
        refine yields_skip_bind (yields_isNext_bind ?_)
        change Yields scope (if Window.isNext ⟨some comma, rest⟩ closer = true then _ else _)
          ⟨some comma, rest⟩ _
        split
        · exact yields_pure ⟨[comma], rest, [], rfl, .trailing hcomma, rfl, rfl, hpassed⟩
        · refine yields_bind (hitem comma rest (.inr hcomma) hpassed) fun b v hb => ?_
          obtain ⟨used, left, a, rfl, ha, rfl, rfl, hmid⟩ := hb
          refine yields_bind (ih hmid) fun bs v hbs => ?_
          obtain ⟨more, final, all, hleft, hall, rfl, rfl, hlast⟩ := hbs
          obtain rfl : left = more ++ final := hleft
          refine yields_pure ⟨comma :: (used ++ more), final, a :: all, ?_, .more hcomma ha hall, rfl,
            ?_, ?_⟩
          · simp
          · rw [lastPassed, lastPassed_append]
          · exact hlast

theorem yields_items {opener closer : TokenKind} (hitem : YieldsItems scope depth opener x item f)
    {b : Token} {ahead : List Token} (hb : b.kind = opener)
    (hclean : Clean scope depth ⟨some b, ahead⟩) :
    Yields scope (items closer x) ⟨some b, ahead⟩
      (Passes scope depth ⟨some b, ahead⟩ (Separated item) (List.map f)) := by
  refine yields_bind (hitem b ahead (.inl hb) hclean) fun first v hfirst => ?_
  obtain ⟨used, left, a, hahead, ha, rfl, rfl, hmid⟩ := hfirst
  refine yields_get_bind ?_
  refine yields_bind (yields_moreItems hitem hmid) fun bs v hbs => ?_
  obtain ⟨more, final, all, hleft, hall, rfl, rfl, hlast⟩ := hbs
  refine yields_pure ⟨used ++ more, final, a :: all, ?_, separated_of_more ha hall, rfl, ?_, hlast⟩
  · rw [hahead, List.append_assoc]
    exact congrArg (fun tokens => used ++ tokens) hleft
  · rw [lastPassed_append]

end Items

section Inside

variable {value : Phrase Docblock.Value} {reader : Reading (Option Docblock.Value)}

theorem key?_isSome {v : Docblock.Value} (h : v.isScalar = true ∨ v.isNull = true) :
    ∃ key, v.key? = some key := by
  cases v <;> first | exact ⟨_, rfl⟩ | simp [Value.isScalar, Value.isNull] at h

theorem yields_entryKey {behind : Option Token} {t sep : Token} {rest : List Token}
    (hclean : Clean scope depth ⟨behind, t :: sep :: rest⟩)
    (hready : NameReady scope ⟨behind, t :: sep :: rest⟩)
    (hsep : keySeparators.contains sep.kind = true) :
    Yields scope (entryKey scope) ⟨behind, t :: sep :: rest⟩ fun key v =>
      EntryKey scope t key ∧ v = ⟨some t, sep :: rest⟩ ∧
        Clean scope depth ⟨some t, sep :: rest⟩ := by
  have hseparator : sep.kind ≠ .separator := by
    intro hkind
    rw [hkind] at hsep
    cases hsep
  refine yields_get_bind ?_
  have hlook : (Window.lookahead ⟨behind, t :: sep :: rest⟩).any (fun t => t.kind.isName) =
      t.kind.isName := rfl
  rw [hlook]
  cases hname : t.kind.isName with
  | true =>
    obtain ⟨v, hv, hvalue⟩ := hready t _ rfl hname
    obtain ⟨key, hkey⟩ := key?_isSome hvalue
    have htext : tailText t (sep :: rest) = "" := tailText_of_ne_separator hseparator
    refine yields_bind (yields_constant hclean hname hv) fun b w hb => ?_
    obtain ⟨rfl, used, left, hahead, htail, rfl, hlast⟩ := hb
    have hsingle (s : String) (htail : NameTail t used s) : used = [] ∧ left = sep :: rest := by
      cases htail with
      | nil => exact ⟨rfl, hahead.symm⟩
      | cons hkind =>
        obtain ⟨rfl, -⟩ := List.cons.inj hahead
        exact absurd hkind hseparator
    obtain ⟨rfl, rfl⟩ := hsingle _ htail
    rw [hkey]
    rw [htext, String.append_empty] at hv
    exact yields_pure ⟨.constant hname hv hkey, rfl, hlast⟩
  | false =>
    refine yields_bind yields_expectAny fun first w hfirst => ?_
    obtain ⟨left, hahead, hkinds, rfl⟩ := hfirst
    obtain ⟨rfl, rfl⟩ := List.cons.inj hahead
    have hliteral : t.kind = .integer ∨ t.kind = .string := by
      simpa using hkinds
    have hpassed : Clean scope depth ⟨some t, sep :: rest⟩ := by
      have hstep := hclean.step
      cases hliteral with
      | inl hkind => rwa [hkind] at hstep
      | inr hkind => rwa [hkind] at hstep
    exact yields_pure ⟨.literal hliteral, rfl, hpassed⟩

theorem yields_entry (hvalue : YieldsValues scope reader value) :
    YieldsItems scope (depth + 1) .openBrace (entry scope reader) (Entry scope value)
      (fun given => (given.1, some given.2)) := by
  intro b ahead hb hclean
  have hready := hclean.nameReady_inside hb
  have hplain : Yields scope (return (none, ← reader)) ⟨some b, ahead⟩
      (Passes scope (depth + 1) ⟨some b, ahead⟩ (Entry scope value)
        (fun given => (given.1, some given.2))) := by
    refine yields_bind (hvalue _ _ hclean hready) fun v w hv => ?_
    obtain ⟨used, left, a, hahead, ha, rfl, rfl, hlast⟩ := hv
    exact yields_pure ⟨used, left, (none, a), hahead, .plain ha, rfl, rfl, hlast⟩
  refine yields_get_bind ?_
  cases hkeyed : (Window.glimpse ⟨some b, ahead⟩).any (fun t => keySeparators.contains t.kind) with
  | false => exact hplain
  | true =>
    obtain ⟨t, sep, rest, rfl⟩ : ∃ t sep rest, ahead = t :: sep :: rest := by
      cases ahead with
      | nil => cases hkeyed
      | cons t rest =>
        cases rest with
        | nil => cases hkeyed
        | cons sep rest => exact ⟨t, sep, rest, rfl⟩
    have hsep : keySeparators.contains sep.kind = true := hkeyed
    have hkinds : sep.kind = .equals ∨ sep.kind = .colon := by
      simpa [keySeparators] using hsep
    refine yields_bind (yields_entryKey hclean hready hsep) fun key w hkey => ?_
    obtain ⟨hkey, rfl, hmid⟩ := hkey
    have hpassed : Clean scope (depth + 1) ⟨some sep, rest⟩ := by
      have hstep := hmid.step
      cases hkinds with
      | inl hkind => rwa [hkind] at hstep
      | inr hkind => rwa [hkind] at hstep
    refine yields_takes_bind (takes_expectAny hsep) ?_
    refine yields_bind (hvalue _ _ hpassed (hpassed.nameReady_assigned hkinds)) fun v w hv => ?_
    obtain ⟨used, left, a, hahead, ha, rfl, rfl, hlast⟩ := hv
    refine yields_pure ⟨t :: sep :: used, left, (some key, a), ?_, .keyed hkey hkinds ha, rfl, rfl,
      hlast⟩
    exact congrArg (fun tokens => t :: sep :: tokens) hahead

theorem yields_collection (hvalue : YieldsValues scope reader value) {behind : Option Token}
    {opener : Token} {rest : List Token} (hopen : opener.kind = .openBrace)
    (hclean : Clean scope depth ⟨behind, opener :: rest⟩) :
    Yields scope (collection scope reader) ⟨behind, opener :: rest⟩
      (Passes scope depth ⟨behind, opener :: rest⟩ (Collection scope value) id) := by
  have hinside : Clean scope (depth + 1) ⟨some opener, rest⟩ := by
    have hstep := hclean.step
    rwa [hopen] at hstep
  refine yields_takes_bind (takes_expect hopen) (yields_isNext_bind ?_)
  cases hclosed : Window.isNext ⟨some opener, rest⟩ .closeBrace with
  | true =>
    cases rest with
    | nil => cases hclosed
    | cons closer rest =>
      have hclose : closer.kind = .closeBrace := by
        have hkind : (closer.kind == .closeBrace) = true := hclosed
        simpa using hkind
      have hpassed : Clean scope depth ⟨some closer, rest⟩ := by
        have hstep := hinside.step
        rwa [hclose] at hstep
      exact yields_skip_bind (yields_pure
        ⟨[opener, closer], rest, .empty, rfl, .empty hopen hclose, rfl, rfl, hpassed⟩)
  | false =>
    refine yields_bind (yields_items (yields_entry hvalue) hopen hinside) fun entries v hv => ?_
    obtain ⟨used, left, all, rfl, hall, rfl, rfl, hmid⟩ := hv
    refine yields_bind yields_expect fun closer v hcloser => ?_
    obtain ⟨final, hleft, hclose, rfl⟩ := hcloser
    obtain rfl : left = closer :: final := hleft
    have hpassed : Clean scope depth ⟨some closer, final⟩ := by
      have hstep := hmid.step
      rwa [hclose] at hstep
    refine yields_pure ⟨opener :: (used ++ [closer]), final, collect all, ?_,
      .entries hopen hall hclose, rfl, ?_, hpassed⟩
    · simp
    · rw [lastPassed, lastPassed_append]
      rfl

theorem yields_argument (hvalue : YieldsValues scope reader value) :
    YieldsItems scope 0 .openParen (argument scope reader) (Argument value) some := by
  intro b ahead hb hclean
  refine yields_get_bind ?_
  cases hnamed : (Window.glimpse ⟨some b, ahead⟩).any (fun t => t.kind == .equals) with
  | false =>
    have hready : NameReady scope ⟨some b, ahead⟩ := by
      refine hclean.nameReady ?_ ?_
      · cases hb with
        | inl hb => rw [hb]; exact TokenKind.noConfusion
        | inr hb => rw [hb]; exact TokenKind.noConfusion
      · rintro t rest rfl ⟨-, -, -, sep, hhead, hsep⟩
        have hglimpse : (rest[0]?).any (fun t => t.kind == .equals) = false := hnamed
        rw [← List.head?_eq_getElem?, hhead] at hglimpse
        simp [hsep] at hglimpse
    refine yields_bind (hvalue _ _ hclean hready) fun v w hv => ?_
    obtain ⟨used, left, a, hahead, ha, rfl, rfl, hlast⟩ := hv
    exact yields_pure ⟨used, left, .positional a, hahead, .positional ha, rfl, rfl, hlast⟩
  | true =>
    refine yields_bind yields_expect fun t w ht => ?_
    obtain ⟨rest, hahead, hkind, rfl⟩ := ht
    obtain rfl : ahead = t :: rest := hahead
    have hmid : Clean scope 0 ⟨some t, rest⟩ := by
      have hstep := hclean.step
      rwa [hkind] at hstep
    refine yields_bind yields_expect fun sep w hsep => ?_
    obtain ⟨others, hrest, hequals, rfl⟩ := hsep
    obtain rfl : rest = sep :: others := hrest
    have hpassed : Clean scope 0 ⟨some sep, others⟩ := by
      have hstep := hmid.step
      rwa [hequals] at hstep
    refine yields_bind (hvalue _ _ hpassed (hpassed.nameReady_assigned (.inl hequals)))
      fun v w hv => ?_
    obtain ⟨used, left, a, hleft, ha, rfl, rfl, hlast⟩ := hv
    refine yields_pure ⟨t :: sep :: used, left, .named t.text a, ?_, .named hkind hequals ha, rfl, rfl,
      hlast⟩
    exact congrArg (fun tokens => t :: sep :: tokens) hleft

theorem yields_arguments (hvalue : YieldsValues scope reader value) {behind : Option Token}
    {opener : Token} {rest : List Token} (hopen : opener.kind = .openParen)
    (hclean : Clean scope 0 ⟨behind, opener :: rest⟩) :
    Yields scope (arguments scope reader) ⟨behind, opener :: rest⟩
      (Passes scope 0 ⟨behind, opener :: rest⟩ (Arguments value) id) := by
  have hinside : Clean scope 0 ⟨some opener, rest⟩ := by
    have hstep := hclean.step
    rwa [hopen] at hstep
  have hparen : Window.isNext ⟨behind, opener :: rest⟩ .openParen = true := by
    change (opener.kind == .openParen) = true
    simpa using hopen
  refine yields_isNext_bind ?_
  rw [hparen]
  refine yields_skip_bind (yields_isNext_bind ?_)
  change Yields scope (if Window.isNext ⟨some opener, rest⟩ .closeParen = true then _ else _)
    ⟨some opener, rest⟩ _
  split
  · next hclosed =>
    cases rest with
    | nil => cases hclosed
    | cons closer rest =>
      have hclose : closer.kind = .closeParen := by
        have hkind : (closer.kind == .closeParen) = true := hclosed
        simpa using hkind
      have hpassed : Clean scope 0 ⟨some closer, rest⟩ := by
        have hstep := hinside.step
        rwa [hclose] at hstep
      refine yields_takes_bind (takes_pure []) (yields_takes_bind (takes_expect hclose) ?_)
      exact yields_pure
        ⟨[opener, closer], rest, .empty, rfl, .empty hopen hclose, rfl, rfl, hpassed⟩
  · refine yields_bind (yields_items (yields_argument hvalue) hopen hinside) fun given v hv => ?_
    obtain ⟨used, left, all, rfl, hall, rfl, rfl, hmid⟩ := hv
    refine yields_bind yields_expect fun closer v hcloser => ?_
    obtain ⟨final, hleft, hclose, rfl⟩ := hcloser
    obtain rfl : left = closer :: final := hleft
    have hpassed : Clean scope 0 ⟨some closer, final⟩ := by
      have hstep := hmid.step
      rwa [hclose] at hstep
    have hfold : (all.map some).filterMap id = all := by simp
    rw [hfold]
    refine yields_pure ⟨opener :: (used ++ [closer]), final, Docblock.Argument.fold all, ?_,
      .arguments hopen hall hclose, rfl, ?_, hpassed⟩
    · simp
    · rw [lastPassed, lastPassed_append]
      rfl

end Inside

/-- With room for so many collections inside one another, nothing but such a value is read. -/
theorem yields_value (room : Nat) :
    YieldsValues scope (Reading.value scope room) (Value scope room) := by
  induction room with
  | zero =>
    intro depth w hclean hready
    refine yields_valueWith (fun _ _ h => h) hclean hready fun t rest _ _ => ?_
    have hstop : Yields scope (unexpected scope (.nesting maxNesting) :
        Reading (OrderedMap Docblock.Value)) w fun _ _ => False := yields_unexpected _
    exact yields_bind hstop fun _ _ h => h.elim
  | succ room ih =>
    intro depth w hclean hready
    refine yields_valueWith (fun _ _ h => .inl h) hclean hready fun t rest hahead hopen => ?_
    obtain ⟨behind, ahead⟩ := w
    obtain rfl : ahead = t :: rest := hahead
    refine yields_bind (yields_collection ih hopen hclean) fun items v hitems => ?_
    obtain ⟨used, left, _, hused, hall, rfl, rfl, hlast⟩ := hitems
    exact yields_pure ⟨used, left, .array items, hused, .inr ⟨items, hall, rfl⟩, rfl, rfl, hlast⟩

end Grammar

end Docblock
