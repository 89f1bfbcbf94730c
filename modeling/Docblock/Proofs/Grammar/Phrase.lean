import Docblock.Proofs.Grammar.Constant
import Docblock.Reading.Value

/-!
# The grammar of values

A phrase says which lists of tokens may be written for something, and what they denote.

    Arguments  = ( ) | ( Argument , ... , Argument [,] )
    Argument   = Value | Identifier = Value
    Value      = String | Integer | Float | True | False | Null | Name | Collection
    Collection = { } | { Entry , ... , Entry [,] }
    Entry      = Value | (name token | Integer | String) (= | :) Value
    Name       = (Identifier | QualifiedName) (separator, adjacent to the token before, name part) ...

Values are given with the number of collections that may lie inside one another.
-/

namespace Docblock

abbrev Phrase (α : Type) := List Token → α → Prop

namespace Grammar

inductive NameTail : Token → Phrase String where
  | nil (before : Token) : NameTail before [] ""
  | cons {before sep part : Token} {rest : List Token} {s : String} :
      sep.kind = .separator → before.isAdjacent sep = true → part.kind.isClassPart = true →
      NameTail part rest s → NameTail before (sep :: part :: rest) ("\\" ++ part.text ++ s)

inductive Name : Phrase String where
  | mk {first : Token} {rest : List Token} {s : String} :
      first.kind.isName = true → NameTail first rest s → Name (first :: rest) (first.text ++ s)

/-- One item or more with commas between them, and possibly one behind the last. -/
inductive Separated {α : Type} (item : Phrase α) : Phrase (List α) where
  | last {used : List Token} {a : α} : item used a → Separated item used [a]
  | trailing {used : List Token} {comma : Token} {a : α} :
      item used a → comma.kind = .comma → Separated item (used ++ [comma]) [a]
  | more {used rest : List Token} {comma : Token} {a : α} {others : List α} :
      item used a → comma.kind = .comma → Separated item rest others →
      Separated item (used ++ comma :: rest) (a :: others)

variable (scope : Scope)

inductive Plain : Phrase Value where
  | string {t : Token} : t.kind = .string → Plain [t] (.string t.text)
  | integer {t : Token} : t.kind = .integer →
      Plain [t] (.int (Decimal.readSaturating t.text.toList))
  | float {t : Token} {x : Float} : t.kind = .float → Decimal.readFloat? t.text.toList = some x →
      Plain [t] (.float x)
  | trueWord {t : Token} : t.kind = .trueWord → Plain [t] (.bool true)
  | falseWord {t : Token} : t.kind = .falseWord → Plain [t] (.bool false)
  | nullWord {t : Token} : t.kind = .nullWord → Plain [t] .null
  | name {used : List Token} {written : String} {v : Value} :
      Name used written → scope.constant? written = some v → Plain used v

inductive EntryKey : Token → Key → Prop where
  | constant {t : Token} {v : Value} {key : Key} : t.kind.isName = true →
      scope.constant? t.text = some v → v.key? = some key → EntryKey t key
  | literal {t : Token} : t.kind = .integer ∨ t.kind = .string → EntryKey t (.ofString t.text)

section Inside

variable (value : Phrase Value)

inductive Entry : Phrase (Option Key × Value) where
  | plain {used : List Token} {v : Value} : value used v → Entry used (none, v)
  | keyed {t sep : Token} {used : List Token} {key : Key} {v : Value} : EntryKey scope t key →
      sep.kind = .equals ∨ sep.kind = .colon → value used v →
      Entry (t :: sep :: used) (some key, v)

def collect (entries : List (Option Key × Value)) : OrderedMap Value :=
  (entries.map fun entry => (entry.1, some entry.2)).foldl OrderedMap.addEntry .empty

inductive Collection : Phrase (OrderedMap Value) where
  | empty {opener closer : Token} : opener.kind = .openBrace → closer.kind = .closeBrace →
      Collection [opener, closer] .empty
  | entries {opener closer : Token} {used : List Token} {entries : List (Option Key × Value)} :
      opener.kind = .openBrace → Separated (Entry scope value) used entries →
      closer.kind = .closeBrace → Collection (opener :: (used ++ [closer])) (collect entries)

inductive Argument : Phrase Docblock.Argument where
  | positional {used : List Token} {v : Value} : value used v → Argument used (.positional v)
  | named {t sep : Token} {used : List Token} {v : Value} : t.kind = .identifier →
      sep.kind = .equals → value used v → Argument (t :: sep :: used) (.named t.text v)

inductive Arguments : Phrase (OrderedMap Value) where
  | empty {opener closer : Token} : opener.kind = .openParen → closer.kind = .closeParen →
      Arguments [opener, closer] .empty
  | arguments {opener closer : Token} {used : List Token} {given : List Docblock.Argument} :
      opener.kind = .openParen → Separated (Argument value) used given →
      closer.kind = .closeParen →
      Arguments (opener :: (used ++ [closer])) (Docblock.Argument.fold given)

end Inside

/-- A value with at most so many collections inside one another. -/
def Value : Nat → Phrase Docblock.Value
  | 0 => Plain scope
  | depth + 1 => fun used v =>
    Plain scope used v ∨ ∃ items, Collection scope (Value depth) used items ∧ v = .array items

def startsValue : TokenKind → Bool
  | .string | .integer | .float | .trueWord | .falseWord | .nullWord | .identifier
  | .qualifiedName | .openBrace | .atSign => true
  | _ => false

def endsValue : TokenKind → Bool
  | .comma | .closeParen | .closeBrace => true
  | _ => false

def Ends (rest : List Token) : Prop := ∃ t others, rest = t :: others ∧ endsValue t.kind = true

def EndsName (rest : List Token) : Prop := ∀ t, rest.head? = some t → t.kind ≠ .separator

theorem Ends.endsName {rest : List Token} (h : Ends rest) : EndsName rest := by
  obtain ⟨first, others, rfl, hfirst⟩ := h
  intro t ht hkind
  obtain rfl : first = t := by simpa using ht
  rw [hkind] at hfirst
  cases hfirst

theorem ends_cons {t : Token} {rest : List Token} (h : endsValue t.kind = true) :
    Ends (t :: rest) := ⟨t, rest, rfl, h⟩

theorem not_endsValue_of_startsValue {kind : TokenKind} (h : startsValue kind = true) :
    ¬ endsValue kind = true := by
  cases kind <;> simp_all [startsValue, endsValue]

def Starts {α : Type} (phrase : Phrase α) (starts : TokenKind → Bool) : Prop :=
  ∀ used a, phrase used a → ∃ t rest, used = t :: rest ∧ starts t.kind = true

/-- Nothing that starts with a value starts with a token that ends one. -/
theorem Starts.ne_closer {α : Type} {phrase : Phrase α} {closer : TokenKind}
    (h : Starts phrase startsValue) (hcloser : endsValue closer = true) {used : List Token} {a : α}
    (ha : phrase used a) : ∃ first tail, used = first :: tail ∧ first.kind ≠ closer := by
  obtain ⟨first, tail, hused, hfirst⟩ := h used a ha
  refine ⟨first, tail, hused, ?_⟩
  intro hsame
  rw [hsame] at hfirst
  exact not_endsValue_of_startsValue hfirst hcloser

theorem startsValue_of_isName {kind : TokenKind} (h : kind.isName = true) :
    startsValue kind = true := by
  cases kind <;> simp_all [TokenKind.isName, startsValue]

theorem starts_plain : Starts (Plain scope) startsValue := by
  intro used v h
  cases h with
  | string ht | integer ht | float ht | trueWord ht | falseWord ht | nullWord ht =>
    refine ⟨_, [], rfl, ?_⟩
    rw [ht]
    rfl
  | name hname =>
    obtain ⟨hfirst, -⟩ := hname
    exact ⟨_, _, rfl, startsValue_of_isName hfirst⟩

theorem starts_value (depth : Nat) : Starts (Value scope depth) startsValue := by
  intro used v h
  cases depth with
  | zero => exact starts_plain scope used v h
  | succ depth =>
    obtain h | ⟨items, h, -⟩ := h
    · exact starts_plain scope used v h
    · cases h with
      | empty hopen => exact ⟨_, _, rfl, by rw [hopen]; rfl⟩
      | entries hopen => exact ⟨_, _, rfl, by rw [hopen]; rfl⟩

theorem startsValue_of_entryKey {t : Token} {key : Key} (h : EntryKey scope t key) :
    startsValue t.kind = true := by
  cases h with
  | constant hname => exact startsValue_of_isName hname
  | literal hkind =>
    cases hkind with
    | inl hkind => rw [hkind]; rfl
    | inr hkind => rw [hkind]; rfl

variable {scope}

theorem starts_entry {value : Phrase Docblock.Value} (h : Starts value startsValue) :
    Starts (Entry scope value) startsValue := by
  intro used a hentry
  cases hentry with
  | plain hvalue => exact h _ _ hvalue
  | keyed hkey => exact ⟨_, _, rfl, startsValue_of_entryKey scope hkey⟩

theorem starts_argument {value : Phrase Docblock.Value} (h : Starts value startsValue) :
    Starts (Argument value) startsValue := by
  intro used a hargument
  cases hargument with
  | positional hvalue => exact h _ _ hvalue
  | named hkind => exact ⟨_, _, rfl, by rw [hkind]; rfl⟩

theorem starts_separated {α : Type} {item : Phrase α} {starts : TokenKind → Bool}
    (h : Starts item starts) : Starts (Separated item) starts := by
  intro used all hall
  cases hall with
  | last hitem => exact h _ _ hitem
  | trailing hitem =>
    obtain ⟨t, rest, rfl, ht⟩ := h _ _ hitem
    exact ⟨t, _, rfl, ht⟩
  | more hitem =>
    obtain ⟨t, rest, rfl, ht⟩ := h _ _ hitem
    exact ⟨t, _, rfl, ht⟩

/-- The token behind the first one of a phrase assigns nothing. -/
def Unassigned {α : Type} (phrase : Phrase α) : Prop :=
  ∀ used a, phrase used a → ∀ rest, Ends rest → ∀ t, (used ++ rest)[1]? = some t →
    t.kind ≠ .equals ∧ t.kind ≠ .colon

theorem ne_assignment_of_ends {rest : List Token} (h : Ends rest) {t : Token}
    (ht : rest[0]? = some t) : t.kind ≠ .equals ∧ t.kind ≠ .colon := by
  obtain ⟨first, others, rfl, hfirst⟩ := h
  obtain rfl : first = t := by simpa using ht
  constructor <;> intro hkind <;> rw [hkind] at hfirst <;> cases hfirst

theorem unassigned_plain : Unassigned (Plain scope) := by
  intro used v h rest hrest t ht
  cases h with
  | string | integer | float | trueWord | falseWord | nullWord =>
    exact ne_assignment_of_ends hrest ht
  | name hname =>
    obtain ⟨-, htail⟩ := hname
    cases htail with
    | nil => exact ne_assignment_of_ends hrest ht
    | @cons _ sep _ _ _ hsep =>
      obtain rfl : sep = t := by simpa using ht
      rw [hsep]
      constructor <;> intro hkind <;> cases hkind

theorem unassigned_value (depth : Nat) : Unassigned (Value scope depth) := by
  intro used v h rest hrest t ht
  cases depth with
  | zero => exact unassigned_plain used v h rest hrest t ht
  | succ depth =>
    obtain h | ⟨items, h, -⟩ := h
    · exact unassigned_plain used v h rest hrest t ht
    · cases h with
      | @empty opener closer _ hclose =>
        obtain rfl : closer = t := by simpa using ht
        rw [hclose]
        constructor <;> intro hkind <;> cases hkind
      | entries _ hentries =>
        obtain ⟨first, tail, rfl, hfirst⟩ :=
          starts_separated (starts_entry (starts_value scope depth)) _ _ hentries
        obtain rfl : first = t := by simpa using ht
        constructor <;> intro hkind <;> rw [hkind] at hfirst <;> cases hfirst

end Grammar

end Docblock
