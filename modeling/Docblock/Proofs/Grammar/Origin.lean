import Docblock.Proofs.Grammar.Document
import Docblock.Proofs.Grammar.Soundness
import Docblock.Proofs.Lookup.Occurrences

/-!
# What a text that is read shows

A reader that succeeds has passed the tokens of a term. So a text that is read without an error
shows calls, and its annotations are their objects.
-/

namespace Docblock

namespace Reading

variable {α β : Type} {scope : Scope} {w v : Window} {post : α → Window → Prop}
  {last : β → Window → Prop}

def OnlyGives (scope : Scope) (x : Reading α) (w : Window) (post : α → Window → Prop) : Prop :=
  ∀ m a v n, m.Knows scope.registry → x.result w m = (.ok (a, v), n) →
    n.Knows scope.registry ∧ post a v

theorem onlyGives_pure {a : α} (h : post a w) : OnlyGives scope (pure a) w post := by
  rintro m b v n hm ⟨⟩
  exact ⟨hm, h⟩

theorem onlyGives_throw (e : AnnotationError) : OnlyGives scope (throw e : Reading α) w post := by
  intro m a v n _ hrun
  rw [result_throw] at hrun
  cases hrun

theorem onlyGives_bind {x : Reading α} {f : α → Reading β} (hx : OnlyGives scope x w post)
    (hf : ∀ a v, post a v → OnlyGives scope (f a) v last) : OnlyGives scope (x >>= f) w last := by
  intro m b u o hm hrun
  obtain ⟨a, v, n, hfirst, hrest⟩ := bind_eq_ok hrun
  obtain ⟨hn, hpost⟩ := hx m a v n hm hfirst
  exact hf a v hpost n b u o hn hrest

theorem onlyGives_get_bind {f : Window → Reading β} (h : OnlyGives scope (f w) w last) :
    OnlyGives scope (get >>= f) w last := h

theorem onlyGives_mono {x : Reading α} {other : α → Window → Prop}
    (h : OnlyGives scope x w post) (hpost : ∀ a v, post a v → other a v) :
    OnlyGives scope x w other := by
  intro m a v n hm hrun
  obtain ⟨hn, ha⟩ := h m a v n hm hrun
  exact ⟨hn, hpost a v ha⟩

theorem onlyGives_of_yields {x : Reading α} (h : Yields scope x w post) :
    OnlyGives scope x w post := by
  intro m a v n hm hrun
  obtain ⟨e, o, hother, -⟩ | ⟨b, u, o, hother, ho, hpost⟩ := h m hm
  · rw [hrun] at hother
    cases hother
  · rw [hrun] at hother
    cases hother
    exact ⟨ho, hpost⟩

theorem onlyGives_of_answers {x : Reading α} {r : Except AnnotationError α}
    (h : Answers scope x w r v) (hpost : ∀ a, r = .ok a → post a v) :
    OnlyGives scope x w post := by
  intro m a u n hm hrun
  obtain ⟨o, ho, hother⟩ := h m hm
  rw [hrun] at hother
  cases r with
  | error e => cases hother
  | ok b =>
    cases hother
    exact ⟨ho, hpost a rfl⟩

end Reading

namespace Grammar

open Reading

variable {scope : Scope} {passed : String → Prop}

def Passed {α : Type} (phrase : Phrase α) (w : Window) (a : α) (v : Window) : Prop :=
  ∃ used rest, w.ahead = used ++ rest ∧ phrase used a ∧ v = ⟨lastPassed w.behind used, rest⟩

def PassesOnly {α β : Type} (scope : Scope) (x : Reading β) (phrase : Phrase α) : Prop :=
  ∀ w, OnlyGives scope x w fun _ v => ∃ a, Passed phrase w a v

theorem exists_of_lookahead {w : Window} {t : Token} (h : w.lookahead = some t) :
    ∃ rest, w.ahead = t :: rest ∧ w.advance = ⟨some t, rest⟩ := by
  obtain ⟨behind, ahead⟩ := w
  cases ahead with
  | nil => cases h
  | cons s rest =>
    cases h
    exact ⟨rest, rfl, rfl⟩

theorem nameParts_eq_ok {before : Token} {ahead : List Token} {steps : Nat} {s : String}
    {v : Window} {m n : Memory} (hsteps : ahead.length ≤ steps)
    (h : (nameParts scope steps).result ⟨some before, ahead⟩ m = (.ok (s, v), n)) :
    Passed (NameTail before) ⟨some before, ahead⟩ s v ∧ separatorFollows v = false ∧ n = m := by
  induction steps generalizing before ahead s v n with
  | zero =>
    obtain rfl : ahead = [] := List.length_eq_zero_iff.1 (Nat.le_zero.1 hsteps)
    cases h
    exact ⟨⟨[], [], rfl, .nil before, rfl⟩, rfl, rfl⟩
  | succ steps ih =>
    unfold nameParts at h
    rw [result_get_bind] at h
    cases hfollows : separatorFollows ⟨some before, ahead⟩ with
    | false =>
      rw [hfollows] at h
      cases h
      exact ⟨⟨[], ahead, rfl, .nil before, rfl⟩, hfollows, rfl⟩
    | true =>
      rw [hfollows] at h
      obtain ⟨sep, v₁, m₁, hsep, hbehind⟩ := bind_eq_ok h
      obtain ⟨hfirst, -, rfl, rfl⟩ := expectAny_eq_ok hsep
      obtain ⟨rest, hrest, hadvance⟩ := exists_of_lookahead hfirst
      obtain rfl : ahead = sep :: rest := hrest
      rw [hadvance] at hbehind
      obtain ⟨part, v₂, m₂, hpart, hmore⟩ := bind_eq_ok hbehind
      obtain ⟨hsecond, hparts, rfl, rfl⟩ := expectAny_eq_ok hpart
      obtain ⟨others, hothers, hadvance⟩ := exists_of_lookahead hsecond
      obtain rfl : rest = part :: others := hothers
      rw [hadvance] at hmore
      obtain ⟨t, v₃, m₃, htail, hlast⟩ := bind_eq_ok hmore
      have hfewer : others.length ≤ steps := by
        simp only [List.length_cons] at hsteps
        omega
      obtain ⟨⟨used, left, hleft, hwritten, rfl⟩, hends, rfl⟩ := ih hfewer htail
      obtain rfl : others = used ++ left := hleft
      have hboth : (sep.kind == .separator && before.isAdjacent sep) = true := hfollows
      obtain ⟨hseparator, hadjacent⟩ := Bool.and_eq_true_iff.1 hboth
      cases hlast
      exact ⟨⟨sep :: part :: used, left, rfl, .cons (eq_of_beq hseparator) hadjacent
        (isClassPart_of_contains hparts) hwritten, rfl⟩, hends, rfl⟩

/-- A name that is read is a path of the grammar, and no separator follows it directly. -/
theorem identifier_eq_ok {w v : Window} {s : String} {m n : Memory}
    (h : (identifier scope).result w m = (.ok (s, v), n)) :
    Passed Path w s v ∧ separatorFollows v = false ∧ n = m := by
  have hnext := identifier_starts h
  unfold identifier at h
  rw [result_get_bind, hnext] at h
  obtain ⟨first, v₁, m₁, hfirst, hmore⟩ := bind_eq_ok h
  obtain ⟨hlook, hkind, rfl, rfl⟩ := expectAny_eq_ok hfirst
  obtain ⟨rest, hahead, hadvance⟩ := exists_of_lookahead hlook
  rw [result_get_bind, hadvance] at hmore
  obtain ⟨t, v₂, m₂, htail, hlast⟩ := bind_eq_ok hmore
  obtain ⟨⟨used, left, hleft, hwritten, rfl⟩, hends, rfl⟩ := nameParts_eq_ok (Nat.le_refl _) htail
  obtain rfl : rest = used ++ left := hleft
  cases hlast
  exact ⟨⟨first :: used, left, hahead, .mk (isClassPart_of_contains hkind) hwritten, rfl⟩, hends,
    rfl⟩

theorem onlyGives_identifier {w : Window} :
    OnlyGives scope (identifier scope) w fun s v =>
      Passed Path w s v ∧ separatorFollows v = false := by
  intro m s v n hm hrun
  obtain ⟨hpassed, hends, rfl⟩ := identifier_eq_ok hrun
  exact ⟨hm, hpassed, hends⟩

theorem onlyGives_constant {w : Window} {first : Token} {rest : List Token}
    (hahead : w.ahead = first :: rest) (hkind : first.kind.isName = true) :
    OnlyGives scope (constant scope) w fun _ v => ∃ name, Passed Name w name v := by
  rw [constant_eq]
  refine onlyGives_bind onlyGives_identifier fun s v hs => ?_
  obtain ⟨⟨used, left, hused, hpath, rfl⟩, -⟩ := hs
  refine onlyGives_of_answers (answers_lookup (answers_constantNamed s)) fun a _ => ?_
  refine ⟨s, used, left, hused, ?_, rfl⟩
  obtain ⟨-, htail⟩ := hpath
  rw [hahead] at hused
  obtain ⟨rfl, -⟩ := List.cons.inj hused
  exact .mk hkind htail

theorem passed_single {α : Type} {phrase : Phrase α} {behind : Option Token} {t : Token}
    {rest : List Token} {a : α} (h : phrase [t] a) :
    Passed phrase ⟨behind, t :: rest⟩ a ⟨some t, rest⟩ := ⟨[t], rest, rfl, h, rfl⟩

/-- A value is a leaf, a collection or an annotation, as the token ahead tells. -/
theorem onlyGives_valueWith {collection : Reading (OrderedMap Docblock.Value)}
    {object : Reading (Option Annotation)} {phrase : Phrase Term} {w : Window}
    (hleaf : ∀ used t, Leaf used t → phrase used t)
    (hcollection : OnlyGives scope collection w fun _ v => ∃ t, Passed phrase w t v)
    (hobject : OnlyGives scope object w fun _ v => ∃ t, Passed phrase w t v) :
    OnlyGives scope (valueWith scope collection object) w fun _ v =>
      ∃ t, Passed phrase w t v := by
  obtain ⟨behind, ahead⟩ := w
  cases ahead with
  | nil => exact onlyGives_of_yields (yields_unexpected _)
  | cons t rest =>
    change OnlyGives scope (valueAt scope collection object t) ⟨behind, t :: rest⟩ _
    have hliteral {v : Docblock.Value} (h : Literal t v) :
        OnlyGives scope (literal v) ⟨behind, t :: rest⟩ fun _ u =>
          ∃ term, Passed phrase ⟨behind, t :: rest⟩ term u :=
      onlyGives_of_answers (answers_of_takes (takes_literal v)) fun _ _ =>
        ⟨.literal v, passed_single (hleaf _ _ (.literal h))⟩
    have hconstant (hname : t.kind.isName = true) :
        OnlyGives scope (return some (← constant scope)) ⟨behind, t :: rest⟩ fun _ u =>
          ∃ term, Passed phrase ⟨behind, t :: rest⟩ term u := by
      refine onlyGives_bind (onlyGives_constant rfl hname) fun v u hu => ?_
      obtain ⟨name, used, left, hused, hwritten, rfl⟩ := hu
      exact onlyGives_pure ⟨.constant name, used, left, hused, hleaf _ _ (.constant hwritten), rfl⟩
    unfold valueAt
    cases hkind : t.kind with
    | openBrace => exact onlyGives_bind hcollection fun items u hu => onlyGives_pure hu
    | atSign => exact onlyGives_bind hobject fun found u hu => onlyGives_pure hu
    | identifier => exact hconstant (by rw [hkind]; rfl)
    | qualifiedName => exact hconstant (by rw [hkind]; rfl)
    | string => exact hliteral (.string hkind)
    | integer => exact hliteral (.integer hkind)
    | float =>
      dsimp only
      cases hx : Decimal.readFloat? t.text.toList with
      | some x => exact hliteral (.float hkind hx)
      | none => exact onlyGives_of_yields (yields_unexpected _)
    | trueWord => exact hliteral (.trueWord hkind)
    | falseWord => exact hliteral (.falseWord hkind)
    | nullWord => exact hliteral (.nullWord hkind)
    | separator | openParen | closeParen | closeBrace | comma | colon | equals | other =>
      exact onlyGives_of_yields (yields_unexpected _)

section Items

variable {α β : Type} {item : Phrase α} {x : Reading β} {closer : TokenKind}

theorem onlyGives_skip_bind {w : Window} {f : Unit → Reading β} {post : β → Window → Prop}
    (h : OnlyGives scope (f ()) w.advance post) : OnlyGives scope (skip >>= f) w post := h

theorem onlyGives_isNext_bind {w : Window} {kind : TokenKind} {f : Bool → Reading β}
    {post : β → Window → Prop} (h : OnlyGives scope (f (w.isNext kind)) w post) :
    OnlyGives scope (isNext kind >>= f) w post := h

theorem exists_of_isNext {behind : Option Token} {ahead : List Token} {kind : TokenKind}
    (h : Window.isNext ⟨behind, ahead⟩ kind = true) :
    ∃ t rest, ahead = t :: rest ∧ t.kind = kind := by
  cases ahead with
  | nil => cases h
  | cons t rest =>
    have hkind : (t.kind == kind) = true := h
    exact ⟨t, rest, rfl, by simpa using hkind⟩

theorem passesOnly_moreItems (hitem : PassesOnly scope x item) (steps : Nat) :
    PassesOnly scope (moreItems closer x steps) (More item) := by
  intro w
  induction steps generalizing w with
  | zero => exact onlyGives_pure ⟨[], [], w.ahead, rfl, .none, rfl⟩
  | succ steps ih =>
    obtain ⟨behind, ahead⟩ := w
    refine onlyGives_isNext_bind ?_
    cases hnext : Window.isNext ⟨behind, ahead⟩ .comma with
    | false => exact onlyGives_pure ⟨[], [], ahead, rfl, .none, rfl⟩
    | true =>
      obtain ⟨comma, rest, rfl, hcomma⟩ := exists_of_isNext hnext
      refine onlyGives_skip_bind (onlyGives_isNext_bind ?_)
      change OnlyGives scope (if Window.isNext ⟨some comma, rest⟩ closer = true then _ else _)
        ⟨some comma, rest⟩ _
      split
      · exact onlyGives_pure ⟨[], [comma], rest, rfl, .trailing hcomma, rfl⟩
      · refine onlyGives_bind (hitem _) fun b v hb => ?_
        obtain ⟨a, used, left, rfl, ha, rfl⟩ := hb
        refine onlyGives_bind (ih _) fun bs v hbs => ?_
        obtain ⟨all, more, final, hleft, hall, rfl⟩ := hbs
        obtain rfl : left = more ++ final := hleft
        refine onlyGives_pure ⟨a :: all, comma :: (used ++ more), final, ?_,
          .more hcomma ha hall, ?_⟩
        · simp
        · rw [lastPassed, lastPassed_append]

theorem passesOnly_items (hitem : PassesOnly scope x item) :
    PassesOnly scope (items closer x) (Separated item) := by
  intro w
  refine onlyGives_bind (hitem w) fun b v hb => ?_
  obtain ⟨a, used, left, hahead, ha, rfl⟩ := hb
  refine onlyGives_get_bind (onlyGives_bind (passesOnly_moreItems hitem _ _) fun bs v hbs => ?_)
  obtain ⟨all, more, final, hleft, hall, rfl⟩ := hbs
  obtain rfl : left = more ++ final := hleft
  refine onlyGives_pure ⟨a :: all, used ++ more, final, ?_, separated_of_more ha hall, ?_⟩
  · rw [hahead, List.append_assoc]
  · rw [lastPassed_append]

theorem passed_empty {left right : TokenKind} {w : Window} {opener closer : Token}
    {rest : List Token} (hahead : w.ahead = opener :: closer :: rest) (hopen : opener.kind = left)
    (hclose : closer.kind = right) :
    Passed (Bracketed left right item) w [] ⟨some closer, rest⟩ :=
  ⟨[opener, closer], rest, hahead, .empty hopen hclose, rfl⟩

theorem passed_items {left right : TokenKind} {w : Window} {opener closer : Token}
    {used rest : List Token} {all : List α} (hahead : w.ahead = opener :: (used ++ closer :: rest))
    (hopen : opener.kind = left) (hall : Separated item used all) (hclose : closer.kind = right) :
    Passed (Bracketed left right item) w all ⟨some closer, rest⟩ := by
  refine ⟨opener :: (used ++ [closer]), rest, ?_, .items hopen hall hclose, ?_⟩
  · rw [hahead]
    simp
  · rw [lastPassed, lastPassed_append]
    rfl

end Items

section Inside

variable {reader : Reading (Option Docblock.Value)} {phrase : Phrase Term}

theorem onlyGives_entryKey {behind : Option Token} {ahead : List Token} {sep : Token}
    (hsecond : ahead[1]? = some sep) (hsep : sep.kind ≠ .separator) :
    OnlyGives scope (entryKey scope) ⟨behind, ahead⟩ fun _ v =>
      ∃ first key rest, ahead = first :: rest ∧ KeyToken first key ∧ v = ⟨some first, rest⟩ := by
  refine onlyGives_get_bind ?_
  cases hname : (Window.lookahead ⟨behind, ahead⟩).any fun t => t.kind.isName with
  | false =>
    refine onlyGives_bind (onlyGives_of_yields yields_expectAny) fun first v hfirst => ?_
    obtain ⟨rest, rfl, hkinds, rfl⟩ := hfirst
    refine onlyGives_pure ⟨first, .literal first.text, rest, rfl, .literal ?_, rfl⟩
    simpa using hkinds
  | true =>
    obtain ⟨first, rest, rfl⟩ : ∃ first rest, ahead = first :: rest := by
      cases ahead with
      | nil => cases hname
      | cons first rest => exact ⟨first, rest, rfl⟩
    have hkind : first.kind.isName = true := hname
    refine onlyGives_bind (onlyGives_constant rfl hkind) fun value v hv => ?_
    have hsingle : v = ⟨some first, rest⟩ := by
      obtain ⟨name, used, left, hused, hwritten, rfl⟩ := hv
      obtain ⟨-, htail⟩ := hwritten
      obtain ⟨rfl, rfl⟩ := List.cons.inj hused
      cases htail with
      | nil => rfl
      | cons hkind =>
        obtain rfl := Option.some.inj hsecond
        exact absurd hkind hsep
    cases value.key? with
    | some key =>
      exact onlyGives_pure ⟨first, .constant first.text, rest, rfl, .constant hkind, hsingle⟩
    | none => exact onlyGives_throw _

variable (hvalue : PassesOnly scope reader phrase)

include hvalue

theorem passesOnly_entry : PassesOnly scope (entry scope reader) (EntryTerm phrase) := by
  rintro ⟨behind, ahead⟩
  refine onlyGives_get_bind ?_
  cases hkeyed : (Window.glimpse ⟨behind, ahead⟩).any (fun t => keySeparators.contains t.kind) with
  | false =>
    refine onlyGives_bind (hvalue _) fun v u hv => ?_
    obtain ⟨t, used, left, hahead, ht, rfl⟩ := hv
    exact onlyGives_pure ⟨(none, t), used, left, hahead, .plain ht, rfl⟩
  | true =>
    obtain ⟨sep, hsecond, hkinds⟩ := (Option.any_eq_true _ _).1 hkeyed
    have hsep : sep.kind ≠ .separator := fun hkind => by
      rw [hkind] at hkinds
      cases hkinds
    refine onlyGives_bind (onlyGives_entryKey hsecond hsep) fun _ v hv => ?_
    obtain ⟨first, key, rest, rfl, hkey, rfl⟩ := hv
    refine onlyGives_bind (onlyGives_of_yields yields_expectAny) fun _ v hv => ?_
    obtain ⟨others, rfl, hkinds, rfl⟩ := hv
    refine onlyGives_bind (hvalue _) fun v u hv => ?_
    obtain ⟨t, used, left, rfl, ht, rfl⟩ := hv
    refine onlyGives_pure ⟨(some key, t), first :: _ :: used, left, rfl, .keyed hkey ?_ ht, rfl⟩
    simpa [keySeparators] using hkinds

theorem passesOnly_collection : PassesOnly scope (collection scope reader)
    (Bracketed .openBrace .closeBrace (EntryTerm phrase)) := by
  intro w
  refine onlyGives_bind (onlyGives_of_yields yields_expect) fun opener v hv => ?_
  obtain ⟨rest, hahead, hopen, rfl⟩ := hv
  refine onlyGives_isNext_bind ?_
  cases hclosed : Window.isNext ⟨some opener, rest⟩ .closeBrace with
  | true =>
    obtain ⟨closer, rest, rfl, hclose⟩ := exists_of_isNext hclosed
    exact onlyGives_skip_bind (onlyGives_pure ⟨[], passed_empty hahead hopen hclose⟩)
  | false =>
    refine onlyGives_bind (passesOnly_items (passesOnly_entry hvalue) _) fun entries v hv => ?_
    obtain ⟨all, used, left, rfl, hall, rfl⟩ := hv
    refine onlyGives_bind (onlyGives_of_yields yields_expect) fun closer v hv => ?_
    obtain ⟨rest, rfl, hclose, rfl⟩ := hv
    exact onlyGives_pure ⟨all, passed_items hahead hopen hall hclose⟩

theorem passesOnly_argument : PassesOnly scope (argument scope reader) (ArgumentTerm phrase) := by
  rintro ⟨behind, ahead⟩
  refine onlyGives_get_bind ?_
  cases hnamed : (Window.glimpse ⟨behind, ahead⟩).any (fun t => t.kind == .equals) with
  | false =>
    refine onlyGives_bind (hvalue _) fun v u hv => ?_
    obtain ⟨t, used, left, hahead, ht, rfl⟩ := hv
    exact onlyGives_pure ⟨(none, t), used, left, hahead, .positional ht, rfl⟩
  | true =>
    refine onlyGives_bind (onlyGives_of_yields yields_expect) fun first v hv => ?_
    obtain ⟨rest, rfl, hfirst, rfl⟩ := hv
    refine onlyGives_bind (onlyGives_of_yields yields_expect) fun sep v hv => ?_
    obtain ⟨others, rfl, hsep, rfl⟩ := hv
    refine onlyGives_bind (hvalue _) fun v u hv => ?_
    obtain ⟨t, used, left, rfl, ht, rfl⟩ := hv
    exact onlyGives_pure ⟨(some first.text, t), first :: sep :: used, left, rfl,
      .named hfirst hsep ht, rfl⟩

theorem onlyGives_arguments (w : Window) :
    OnlyGives scope (Reading.arguments scope reader) w fun _ v =>
      (v = w ∧ ∀ t ∈ w.ahead.head?, t.kind ≠ .openParen) ∨
        ∃ all, Passed (Bracketed .openParen .closeParen (ArgumentTerm phrase)) w all v := by
  obtain ⟨behind, ahead⟩ := w
  refine onlyGives_isNext_bind ?_
  cases hopened : Window.isNext ⟨behind, ahead⟩ .openParen with
  | false =>
    refine onlyGives_pure (.inl ⟨rfl, ?_⟩)
    cases ahead with
    | nil => exact nofun
    | cons first rest =>
      have hkind : (first.kind == .openParen) = false := hopened
      intro t ht
      obtain rfl : first = t := by simpa using ht
      simpa using hkind
  | true =>
    obtain ⟨opener, rest, rfl, hopen⟩ := exists_of_isNext hopened
    refine onlyGives_skip_bind (onlyGives_isNext_bind ?_)
    change OnlyGives scope (if Window.isNext ⟨some opener, rest⟩ .closeParen = true then _ else _)
      ⟨some opener, rest⟩ _
    split
    · next hclosed =>
      have hnone : OnlyGives scope (pure [] : Reading (List (Option Docblock.Argument)))
          ⟨some opener, rest⟩ fun _ v => v = ⟨some opener, rest⟩ := onlyGives_pure rfl
      refine onlyGives_bind hnone fun given v hv => ?_
      obtain rfl := hv
      refine onlyGives_bind (onlyGives_of_yields yields_expect) fun closer v hv => ?_
      obtain ⟨final, rfl, hclose, rfl⟩ := hv
      exact onlyGives_pure (.inr ⟨[], passed_empty rfl hopen hclose⟩)
    · refine onlyGives_bind (passesOnly_items (passesOnly_argument hvalue) _) fun given v hv => ?_
      obtain ⟨all, used, left, rfl, hall, rfl⟩ := hv
      refine onlyGives_bind (onlyGives_of_yields yields_expect) fun closer v hv => ?_
      obtain ⟨final, rfl, hclose, rfl⟩ := hv
      exact onlyGives_pure (.inr ⟨all, passed_items rfl hopen hall hclose⟩)

variable (hs : scope.IsSettled) (hpassed : ∀ name, scope.schemaFor name = .ok none ↔ passed name)

include hs hpassed

theorem onlyGives_object (target : Target) (w : Window) :
    OnlyGives scope (object scope target reader) w fun _ v =>
      (∃ name, Passed SignedName w name v ∧ separatorFollows v = false ∧
        (¬ passed name → ∀ t ∈ v.ahead.head?, t.kind ≠ .openParen)) ∨
      ∃ call, Passed (Applied phrase passed) w call v := by
  rw [object_eq]
  refine onlyGives_bind (onlyGives_of_yields yields_expect) fun sign v hv => ?_
  obtain ⟨rest, hahead, hsign, rfl⟩ := hv
  refine onlyGives_bind onlyGives_identifier fun name v hv => ?_
  obtain ⟨⟨used, left, hused, hpath, rfl⟩, hends⟩ := hv
  obtain rfl : rest = used ++ left := hused
  have hname : Passed SignedName w name ⟨lastPassed (some sign) used, left⟩ :=
    ⟨sign :: used, left, hahead, .mk hsign hpath, rfl⟩
  have hfound : OnlyGives scope (liftM (scope.schemaNamed name) :
      Reading (Option AnnotationSchema)) ⟨lastPassed (some sign) used, left⟩ fun found v =>
        scope.schemaFor name = .ok found ∧ v = ⟨lastPassed (some sign) used, left⟩ :=
    onlyGives_of_answers (answers_lookup (hs name)) fun a ha => ⟨ha, rfl⟩
  refine onlyGives_bind hfound fun found v hv => ?_
  obtain ⟨hschema, rfl⟩ := hv
  cases found with
  | none =>
    exact onlyGives_pure (.inl ⟨name, hname, hends,
      fun hnot => absurd ((hpassed name).1 hschema) hnot⟩)
  | some schema =>
    have hnot : ¬ passed name := fun hpass => by
      rw [(hpassed name).2 hpass] at hschema
      cases hschema
    unfold objectNamed
    dsimp only
    split
    · exact onlyGives_bind (onlyGives_throw _) fun _ _ (h : False) => h.elim
    · refine onlyGives_bind (onlyGives_arguments hvalue _) fun values v hv => ?_
      have hlast : OnlyGives scope (liftM (schema.objectOf scope.registry ⟨name, scope.context⟩
          values) : Reading Annotation) v fun _ u => u = v :=
        onlyGives_of_answers (answers_except _) fun _ _ => rfl
      refine onlyGives_bind hlast fun a u hu => ?_
      obtain rfl := hu
      obtain ⟨rfl, hparen⟩ | ⟨all, more, final, hmore, hall, rfl⟩ := hv
      · exact onlyGives_pure (.inl ⟨name, hname, hends, fun _ => hparen⟩)
      · obtain rfl : left = more ++ final := hmore
        refine onlyGives_pure (.inr ⟨(name, all), sign :: used ++ more, final, ?_,
          .mk (.mk hsign hpath) hnot hall, ?_⟩)
        · rw [hahead]
          simp
        · rw [lastPassed_append]
          rfl

end Inside

/-- What is read as a value is a term. -/
theorem passesOnly_value (hs : scope.IsSettled)
    (hpassed : ∀ name, scope.schemaFor name = .ok none ↔ passed name) (room : Nat) :
    PassesOnly scope (Reading.value scope room) (Written passed room) := by
  induction room with
  | zero =>
    intro w
    exact onlyGives_valueWith (fun _ _ h => h) (onlyGives_of_yields (yields_unexpected _))
      (onlyGives_of_yields (yields_unexpected _))
  | succ room ih =>
    intro w
    refine onlyGives_valueWith (fun _ _ h => .leaf h) ?_ ?_
    · refine onlyGives_mono (passesOnly_collection ih w) fun items v hv => ?_
      obtain ⟨entries, used, left, hahead, hentries, rfl⟩ := hv
      exact ⟨.collection entries, used, left, hahead, .collection hentries, rfl⟩
    · refine onlyGives_mono (onlyGives_object ih hs hpassed .nested w) fun found v hv => ?_
      obtain ⟨name, ⟨used, left, hahead, hname, rfl⟩, -⟩ |
        ⟨call, used, left, hahead, hcall, rfl⟩ := hv
      · exact ⟨.call name [], used, left, hahead, .bare hname, rfl⟩
      · exact ⟨.call call.1 call.2, used, left, hahead, .applied hcall, rfl⟩

/-- A text that is read without an error shows calls. -/
theorem onlyGives_annotations (hs : scope.IsSettled)
    (hpassed : ∀ name, scope.schemaFor name = .ok none ↔ passed name) {target : Target}
    {steps : Nat} {behind : Option Token} {ahead : List Token} (hsteps : ahead.length ≤ steps) :
    OnlyGives scope (annotations scope target steps) ⟨behind, ahead⟩ fun _ _ =>
      ∃ calls, Document passed behind ahead calls := by
  have hend {tokens : List Token} (hnil : tokens = []) (behind : Option Token) :
      ∃ calls, Document passed behind tokens calls := by
    rw [hnil]
    exact ⟨[], .nil behind⟩
  induction steps generalizing behind ahead with
  | zero => exact onlyGives_pure (hend (List.length_eq_zero_iff.1 (Nat.le_zero.1 hsteps)) behind)
  | succ steps ih =>
    rw [annotations]
    refine onlyGives_get_bind ?_
    cases ahead with
    | nil => exact onlyGives_pure (hend rfl behind)
    | cons t rest =>
      dsimp only [List.isEmpty_cons]
      simp only [Bool.false_eq_true, if_false]
      cases hstarts : startsAnnotation ⟨behind, t :: rest⟩ with
      | false =>
        refine onlyGives_skip_bind ?_
        refine onlyGives_mono (ih (Nat.le_of_succ_le_succ hsteps)) fun _ _ h => ?_
        obtain ⟨calls, hcalls⟩ := h
        exact ⟨calls, .skip hstarts hcalls⟩
      | true =>
        rw [if_pos rfl]
        refine onlyGives_bind (onlyGives_object (passesOnly_value hs hpassed maxNesting) hs hpassed
          target _) fun found v hv => ?_
        have hmore {used left : List Token} (hahead : t :: rest = used ++ left)
            (hused : ∃ sign more, used = sign :: more ∧ sign.kind = .atSign) :
            OnlyGives scope (annotations scope target steps) ⟨lastPassed behind used, left⟩
              fun _ _ => ∃ calls, Document passed (lastPassed behind used) left calls := by
          obtain ⟨sign, more, rfl, -⟩ := hused
          refine ih ?_
          have hlength := congrArg List.length hahead
          rw [List.length_append, List.length_cons, List.length_cons] at hlength
          rw [List.length_cons] at hsteps
          omega
        obtain ⟨name, ⟨used, left, hahead, hname, rfl⟩, hends, hparen⟩ |
          ⟨call, used, left, hahead, hcall, rfl⟩ := hv
        · refine onlyGives_bind (hmore hahead hname.starts) fun _ _ h => onlyGives_pure ?_
          obtain ⟨calls, hcalls⟩ := h
          have hsame : t :: rest = used ++ left := hahead
          rw [hsame] at hstarts ⊢
          exact ⟨(name, []) :: calls, .bare hstarts hname hends hparen hcalls⟩
        · refine onlyGives_bind (hmore hahead hcall.starts) fun _ _ h => onlyGives_pure ?_
          obtain ⟨calls, hcalls⟩ := h
          have hsame : t :: rest = used ++ left := hahead
          rw [hsame] at hstarts ⊢
          exact ⟨call :: calls, .applied hstarts hcall hcalls⟩

end Grammar

end Docblock
