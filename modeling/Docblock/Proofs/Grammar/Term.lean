import Docblock.Proofs.Grammar.Phrase

/-!
# Terms

A term is a value as it is written. Unlike a value it keeps the names of constants and of
annotations, so that it can be written down before anything is known of classes.

    Term       = Literal | Name | { Entries } | Annotation
    Entries    = ( ) | Entry , ... , Entry [,]
    Entry      = Term | (name token | Integer | String) (= | :) Term
    Annotation = @ Name | @ Name ( Arguments )
    Arguments  = ( ) | Argument , ... , Argument [,]
    Argument   = Term | Identifier = Term

Nothing in parentheses belongs to an annotation whose name is passed over.
-/

namespace Docblock

namespace Grammar

inductive KeyTerm where
  | constant (name : String)
  | literal (text : String)

def KeyTerm.IsLiteral : KeyTerm → Prop
  | .literal _ => True
  | .constant _ => False

inductive Term where
  | literal (v : Docblock.Value)
  | constant (name : String)
  | collection (entries : List (Option KeyTerm × Term))
  | call (name : String) (arguments : List (Option String × Term))

abbrev Call := String × List (Option String × Term)

inductive Literal : Token → Docblock.Value → Prop where
  | string {t : Token} : t.kind = .string → Literal t (.string t.text)
  | integer {t : Token} : t.kind = .integer →
      Literal t (.int (Decimal.readSaturating t.text.toList))
  | float {t : Token} {x : Float} : t.kind = .float → Decimal.readFloat? t.text.toList = some x →
      Literal t (.float x)
  | trueWord {t : Token} : t.kind = .trueWord → Literal t (.bool true)
  | falseWord {t : Token} : t.kind = .falseWord → Literal t (.bool false)
  | nullWord {t : Token} : t.kind = .nullWord → Literal t .null

inductive Leaf : Phrase Term where
  | literal {t : Token} {v : Docblock.Value} : Literal t v → Leaf [t] (.literal v)
  | constant {used : List Token} {name : String} : Name used name → Leaf used (.constant name)

inductive KeyToken : Token → KeyTerm → Prop where
  | constant {t : Token} : t.kind.isName = true → KeyToken t (.constant t.text)
  | literal {t : Token} : t.kind = .integer ∨ t.kind = .string → KeyToken t (.literal t.text)

inductive Path : Phrase String where
  | mk {first : Token} {rest : List Token} {s : String} : first.kind.isClassPart = true →
      NameTail first rest s → Path (first :: rest) (first.text ++ s)

inductive SignedName : Phrase String where
  | mk {sign : Token} {used : List Token} {name : String} : sign.kind = .atSign → Path used name →
      SignedName (sign :: used) name

theorem signedName_single {sign first : Token} (hsign : sign.kind = .atSign)
    (hfirst : first.kind.isClassPart = true) : SignedName [sign, first] first.text := by
  have hpath := Path.mk hfirst (NameTail.nil first)
  rw [String.append_empty] at hpath
  exact .mk hsign hpath

inductive Bracketed {α : Type} (left right : TokenKind) (item : Phrase α) : Phrase (List α) where
  | empty {opener closer : Token} : opener.kind = left → closer.kind = right →
      Bracketed left right item [opener, closer] []
  | items {opener closer : Token} {used : List Token} {all : List α} : opener.kind = left →
      Separated item used all → closer.kind = right →
      Bracketed left right item (opener :: (used ++ [closer])) all

section Inside

variable (value : Phrase Term)

inductive EntryTerm : Phrase (Option KeyTerm × Term) where
  | plain {used : List Token} {t : Term} : value used t → EntryTerm used (none, t)
  | keyed {first sep : Token} {used : List Token} {key : KeyTerm} {t : Term} : KeyToken first key →
      sep.kind = .equals ∨ sep.kind = .colon → value used t →
      EntryTerm (first :: sep :: used) (some key, t)

inductive ArgumentTerm : Phrase (Option String × Term) where
  | positional {used : List Token} {t : Term} : value used t → ArgumentTerm used (none, t)
  | named {first sep : Token} {used : List Token} {t : Term} : first.kind = .identifier →
      sep.kind = .equals → value used t → ArgumentTerm (first :: sep :: used) (some first.text, t)

variable (passed : String → Prop)

/-- A call that takes its arguments, which it does only if its name is not passed over. -/
inductive Applied : Phrase Call where
  | mk {used more : List Token} {name : String} {arguments : List (Option String × Term)} :
      SignedName used name → ¬ passed name →
      Bracketed .openParen .closeParen (ArgumentTerm value) more arguments →
      Applied (used ++ more) (name, arguments)

/-- A term whose inner terms are written as values. -/
inductive Layer : Phrase Term where
  | leaf {used : List Token} {t : Term} : Leaf used t → Layer used t
  | collection {used : List Token} {entries : List (Option KeyTerm × Term)} :
      Bracketed .openBrace .closeBrace (EntryTerm value) used entries →
      Layer used (.collection entries)
  | bare {used : List Token} {name : String} : SignedName used name →
      Layer used (.call name [])
  | applied {used : List Token} {call : Call} : Applied value passed used call →
      Layer used (.call call.1 call.2)

end Inside

/-- A term with at most so many levels of brackets and signs. -/
def Written (passed : String → Prop) : Nat → Phrase Term
  | 0 => Leaf
  | room + 1 => Layer (Written passed room) passed

theorem not_leaf_call {used : List Token} {name : String}
    {arguments : List (Option String × Term)} : ¬ Leaf used (.call name arguments) := nofun

theorem not_leaf_collection {used : List Token} {entries : List (Option KeyTerm × Term)} :
    ¬ Leaf used (.collection entries) := nofun

variable {passed : String → Prop}

theorem startsValue_of_literal {t : Token} {v : Docblock.Value} (h : Literal t v) :
    startsValue t.kind = true := by
  cases h with
  | string hkind | integer hkind | float hkind | trueWord hkind | falseWord hkind
  | nullWord hkind => rw [hkind]; rfl

theorem starts_leaf : Starts Leaf startsValue := by
  intro used t h
  cases h with
  | literal hliteral => exact ⟨_, _, rfl, startsValue_of_literal hliteral⟩
  | constant hname =>
    obtain ⟨hfirst, -⟩ := hname
    exact ⟨_, _, rfl, startsValue_of_isName hfirst⟩

theorem Bracketed.starts {α : Type} {left right : TokenKind} {item : Phrase α}
    {used : List Token} {all : List α} (h : Bracketed left right item used all) :
    ∃ opener rest, used = opener :: rest ∧ opener.kind = left := by
  cases h with
  | empty hopen => exact ⟨_, _, rfl, hopen⟩
  | items hopen => exact ⟨_, _, rfl, hopen⟩

theorem SignedName.starts {used : List Token} {name : String} (h : SignedName used name) :
    ∃ sign rest, used = sign :: rest ∧ sign.kind = .atSign := by
  obtain ⟨hsign, -⟩ := h
  exact ⟨_, _, rfl, hsign⟩

theorem Applied.starts {value : Phrase Term} {used : List Token} {call : Call}
    (h : Applied value passed used call) : ∃ sign rest, used = sign :: rest ∧ sign.kind = .atSign := by
  obtain ⟨hname, -, -⟩ := h
  obtain ⟨sign, rest, rfl, hsign⟩ := hname.starts
  exact ⟨sign, _, rfl, hsign⟩

theorem starts_layer (value : Phrase Term) : Starts (Layer value passed) startsValue := by
  intro used t h
  cases h with
  | leaf hleaf => exact starts_leaf _ _ hleaf
  | collection hentries =>
    obtain ⟨opener, rest, rfl, hopen⟩ := hentries.starts
    exact ⟨opener, rest, rfl, by rw [hopen]; rfl⟩
  | bare hname =>
    obtain ⟨sign, rest, rfl, hsign⟩ := hname.starts
    exact ⟨sign, rest, rfl, by rw [hsign]; rfl⟩
  | applied hcall =>
    obtain ⟨sign, rest, rfl, hsign⟩ := hcall.starts
    exact ⟨sign, rest, rfl, by rw [hsign]; rfl⟩

theorem starts_written (room : Nat) : Starts (Written passed room) startsValue := by
  cases room with
  | zero => exact starts_leaf
  | succ room => exact starts_layer _

theorem startsValue_of_keyToken {t : Token} {key : KeyTerm} (h : KeyToken t key) :
    startsValue t.kind = true := by
  cases h with
  | constant hname => exact startsValue_of_isName hname
  | literal hkind =>
    cases hkind with
    | inl hkind => rw [hkind]; rfl
    | inr hkind => rw [hkind]; rfl

theorem Separated.exists_used {α : Type} {item : Phrase α} {used : List Token} {all : List α}
    (h : Separated item used all) : ∀ a ∈ all, ∃ part, item part a := by
  induction h with
  | last ha | trailing ha =>
    intro b hb
    obtain rfl := List.mem_singleton.1 hb
    exact ⟨_, ha⟩
  | more ha _ _ ih =>
    intro b hb
    obtain rfl | hb := List.mem_cons.1 hb
    · exact ⟨_, ha⟩
    · exact ih b hb

theorem Bracketed.exists_used {α : Type} {left right : TokenKind} {item : Phrase α}
    {used : List Token} {all : List α} (h : Bracketed left right item used all) :
    ∀ a ∈ all, ∃ part, item part a := by
  cases h with
  | empty => exact nofun
  | items _ hall => exact hall.exists_used

variable {value : Phrase Term}

theorem Layer.exists_used_entry {used : List Token} {entries : List (Option KeyTerm × Term)}
    (h : Layer value passed used (.collection entries)) :
    ∀ a ∈ entries, ∃ part, value part a.2 := by
  cases h with
  | leaf hleaf => exact (not_leaf_collection hleaf).elim
  | collection hentries =>
    intro a ha
    obtain ⟨part, hpart⟩ := hentries.exists_used a ha
    cases hpart with
    | plain ht => exact ⟨_, ht⟩
    | keyed _ _ ht => exact ⟨_, ht⟩

theorem Applied.exists_used {used : List Token} {call : Call} (h : Applied value passed used call) :
    ∀ a ∈ call.2, ∃ part, value part a.2 := by
  obtain ⟨-, -, harguments⟩ := h
  intro a ha
  obtain ⟨part, hpart⟩ := harguments.exists_used a ha
  cases hpart with
  | positional ht => exact ⟨_, ht⟩
  | named _ _ ht => exact ⟨_, ht⟩

theorem Layer.exists_used_argument {used : List Token} {name : String}
    {arguments : List (Option String × Term)} (h : Layer value passed used (.call name arguments)) :
    ∀ a ∈ arguments, ∃ part, value part a.2 := by
  cases h with
  | leaf hleaf => exact (not_leaf_call hleaf).elim
  | bare => exact nofun
  | applied hcall => exact hcall.exists_used

theorem starts_entryTerm (h : Starts value startsValue) : Starts (EntryTerm value) startsValue := by
  intro used a hentry
  cases hentry with
  | plain hvalue => exact h _ _ hvalue
  | keyed hkey => exact ⟨_, _, rfl, startsValue_of_keyToken hkey⟩

theorem starts_argumentTerm (h : Starts value startsValue) :
    Starts (ArgumentTerm value) startsValue := by
  intro used a hargument
  cases hargument with
  | positional hvalue => exact h _ _ hvalue
  | named hkind => exact ⟨_, _, rfl, by rw [hkind]; rfl⟩

theorem unassigned_leaf : Unassigned Leaf := by
  intro used t h rest hrest next hnext
  cases h with
  | literal => exact ne_assignment_of_ends hrest hnext
  | constant hname =>
    obtain ⟨-, htail⟩ := hname
    cases htail with
    | nil => exact ne_assignment_of_ends hrest hnext
    | @cons _ sep _ _ _ hsep =>
      obtain rfl : sep = next := by simpa using hnext
      rw [hsep]
      constructor <;> intro hkind <;> cases hkind

/-- Behind a sign there is a name. -/
theorem not_assigned_of_signedName {used more : List Token} {name : String}
    (h : SignedName used name) {next : Token} (hnext : (used ++ more)[1]? = some next) :
    next.kind ≠ .equals ∧ next.kind ≠ .colon := by
  obtain ⟨-, hpath⟩ := h
  cases hpath with
  | @mk first rest s hfirst =>
    obtain rfl : first = next := by simpa using hnext
    constructor <;> intro hkind <;> rw [hkind] at hfirst <;> cases hfirst

theorem unassigned_layer (hvalue : Starts value startsValue) :
    Unassigned (Layer value passed) := by
  intro used t h rest hrest next hnext
  cases h with
  | leaf hleaf => exact unassigned_leaf _ _ hleaf rest hrest next hnext
  | collection hentries =>
    cases hentries with
    | @empty opener closer _ hclose =>
      obtain rfl : closer = next := by simpa using hnext
      rw [hclose]
      constructor <;> intro hkind <;> cases hkind
    | items _ hall =>
      obtain ⟨first, tail, rfl, hfirst⟩ := starts_separated (starts_entryTerm hvalue) _ _ hall
      obtain rfl : first = next := by simpa using hnext
      constructor <;> intro hkind <;> rw [hkind] at hfirst <;> cases hfirst
  | bare hname => exact not_assigned_of_signedName hname hnext
  | applied hcall =>
    obtain ⟨hname, -, -⟩ := hcall
    rw [List.append_assoc] at hnext
    exact not_assigned_of_signedName hname hnext

theorem unassigned_written (room : Nat) : Unassigned (Written passed room) := by
  cases room with
  | zero => exact unassigned_leaf
  | succ room => exact unassigned_layer (starts_written room)

section More

variable {other : Phrase Term} (h : ∀ used t, value used t → other used t)

include h

theorem EntryTerm.mono {used : List Token} {a : Option KeyTerm × Term}
    (ha : EntryTerm value used a) : EntryTerm other used a := by
  cases ha with
  | plain ht => exact .plain (h _ _ ht)
  | keyed hkey hsep ht => exact .keyed hkey hsep (h _ _ ht)

theorem ArgumentTerm.mono {used : List Token} {a : Option String × Term}
    (ha : ArgumentTerm value used a) : ArgumentTerm other used a := by
  cases ha with
  | positional ht => exact .positional (h _ _ ht)
  | named hfirst hsep ht => exact .named hfirst hsep (h _ _ ht)

end More

end Grammar

end Docblock
