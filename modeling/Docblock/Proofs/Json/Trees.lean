import Docblock.Json
import Docblock.Proofs.Decimal.CanonicalText
import Mathlib.Tactic.SplitIfs

/-!
# What JSON texts denote

A JSON text without blanks denotes a tree. A reader takes one character of a string or one integer
at a time and leaves the rest, whichever way the character is escaped; around these leaves the first
character settles what is read. So a text denotes at most one tree, and one text of a tree is never
the beginning of another one.
-/

namespace Docblock.Json

inductive Tree where
  | null
  | bool (b : Bool)
  | int (n : Int)
  | string (s : List Char)
  | list (items : List Tree)
  | object (fields : List (List Char × Tree))

/-- The objects inside a tree, itself included, by their fields. -/
inductive Tree.HasObject : Tree → List (List Char × Tree) → Prop where
  | self (fields : List (List Char × Tree)) : HasObject (.object fields) fields
  | item {items : List Tree} {t : Tree} {fields : List (List Char × Tree)} : t ∈ items →
      HasObject t fields → HasObject (.list items) fields
  | field {others fields : List (List Char × Tree)} {name : List Char} {t : Tree} :
      (name, t) ∈ others → HasObject t fields → HasObject (.object others) fields

def hexValue? (c : Char) : Option Nat :=
  if c.isDigit then some (c.toNat - '0'.toNat)
  else if 'a' ≤ c ∧ c ≤ 'f' then some (c.toNat - 'a'.toNat + 10)
  else if 'A' ≤ c ∧ c ≤ 'F' then some (c.toNat - 'A'.toNat + 10)
  else none

def codeUnit? : List Char → Option (Nat × List Char)
  | a :: b :: c :: d :: rest => do
    let a ← hexValue? a
    let b ← hexValue? b
    let c ← hexValue? c
    let d ← hexValue? d
    return (a * 0x1000 + b * 0x100 + c * 0x10 + d, rest)
  | _ => none

/-- The character of a code unit, or of two of them that are a surrogate pair. -/
def coded? (text : List Char) : Option (Char × List Char) := do
  let (high, rest) ← codeUnit? text
  if high < 0xD800 ∨ 0xDFFF < high then return (Char.ofNat high, rest)
  else
    match rest with
    | '\\' :: 'u' :: more => do
      let (low, rest) ← codeUnit? more
      if high ≤ 0xDBFF ∧ 0xDC00 ≤ low ∧ low ≤ 0xDFFF then
        return (Char.ofNat (0x10000 + (high - 0xD800) * 0x400 + (low - 0xDC00)), rest)
      else none
    | _ => none

def unescaped? : Char → Option Char
  | '"' => some '"'
  | '\\' => some '\\'
  | '/' => some '/'
  | 'b' => some '\x08'
  | 'f' => some '\x0c'
  | 'n' => some '\n'
  | 'r' => some '\r'
  | 't' => some '\t'
  | _ => none

def char? : List Char → Option (Char × List Char)
  | '\\' :: 'u' :: rest => coded? rest
  | '\\' :: mark :: rest => (unescaped? mark).map fun c => (c, rest)
  | '\\' :: [] => none
  | c :: rest => if c = '"' ∨ c.toNat < 0x20 then none else some (c, rest)
  | [] => none

def natural? (text : List Char) : Option (Nat × List Char) :=
  let digits := text.takeWhile Char.isDigit
  if digits = [] ∨ 1 < digits.length ∧ digits.head? = some '0' then none
  else some (Nat.ofDigitChars 10 digits 0, text.dropWhile Char.isDigit)

def integer? : List Char → Option (Int × List Char)
  | '-' :: text => (natural? text).map fun (n, rest) => (-n, rest)
  | text => (natural? text).map fun (n, rest) => (n, rest)

inductive ReadsString : List Char → List Char → List Char → Prop where
  | close {rest : List Char} : ReadsString ('"' :: rest) [] rest
  | char {text more rest cs : List Char} {c : Char} : char? text = some (c, more) →
      ReadsString more cs rest → ReadsString text (c :: cs) rest

mutual

/-- The tree at the beginning of a text, and what it leaves of the text. -/
inductive Reads : List Char → Tree → List Char → Prop where
  | null {rest : List Char} : Reads ('n' :: 'u' :: 'l' :: 'l' :: rest) .null rest
  | trueWord {rest : List Char} : Reads ('t' :: 'r' :: 'u' :: 'e' :: rest) (.bool true) rest
  | falseWord {rest : List Char} :
      Reads ('f' :: 'a' :: 'l' :: 's' :: 'e' :: rest) (.bool false) rest
  | int {text rest : List Char} {n : Int} : integer? text = some (n, rest) →
      Reads text (.int n) rest
  | string {text s rest : List Char} : ReadsString text s rest →
      Reads ('"' :: text) (.string s) rest
  | emptyList {rest : List Char} : Reads ('[' :: ']' :: rest) (.list []) rest
  | list {text rest : List Char} {items : List Tree} : ReadsItems text items rest →
      Reads ('[' :: text) (.list items) rest
  | emptyObject {rest : List Char} : Reads ('{' :: '}' :: rest) (.object []) rest
  | object {text rest : List Char} {fields : List (List Char × Tree)} :
      ReadsFields text fields rest → Reads ('{' :: text) (.object fields) rest

inductive ReadsItems : List Char → List Tree → List Char → Prop where
  | last {text rest : List Char} {t : Tree} : Reads text t (']' :: rest) → ReadsItems text [t] rest
  | more {text others rest : List Char} {t : Tree} {items : List Tree} :
      Reads text t (',' :: others) → ReadsItems others items rest →
      ReadsItems text (t :: items) rest

inductive ReadsField : List Char → List Char × Tree → List Char → Prop where
  | mk {text value name rest : List Char} {t : Tree} : ReadsString text name (':' :: value) →
      Reads value t rest → ReadsField ('"' :: text) (name, t) rest

inductive ReadsFields : List Char → List (List Char × Tree) → List Char → Prop where
  | last {text rest : List Char} {field : List Char × Tree} :
      ReadsField text field ('}' :: rest) → ReadsFields text [field] rest
  | more {text others rest : List Char} {field : List Char × Tree}
      {fields : List (List Char × Tree)} : ReadsField text field (',' :: others) →
      ReadsFields others fields rest → ReadsFields text (field :: fields) rest

end

theorem char?_quote (rest : List Char) : char? ('"' :: rest) = none := by
  simp [char?]

theorem ReadsString.unique {text cs ds rest others : List Char} (h : ReadsString text cs rest)
    (h' : ReadsString text ds others) : cs = ds ∧ rest = others := by
  induction h generalizing ds with
  | close =>
    cases h' with
    | close => exact ⟨rfl, rfl⟩
    | char hchar _ => simp [char?_quote] at hchar
  | @char text more rest cs c hchar hmore ih =>
    cases h' with
    | close => simp [char?_quote] at hchar
    | char hother hothers =>
      rw [hchar] at hother
      obtain ⟨rfl, rfl⟩ := Prod.mk.inj (Option.some.inj hother)
      obtain ⟨rfl, rfl⟩ := ih hothers
      exact ⟨rfl, rfl⟩

theorem integer?_ne_some {c : Char} {cs : List Char} {found : Int × List Char} (hminus : c ≠ '-')
    (hdigit : c.isDigit = false) : integer? (c :: cs) ≠ some found := by
  simp [integer?, natural?, hminus, hdigit]

theorem not_reads_bracket {cs rest : List Char} {t : Tree} : ¬ Reads (']' :: cs) t rest := by
  intro h
  cases h with
  | int hint => exact absurd hint (integer?_ne_some (by decide) (by decide))

theorem not_readsFields_brace {cs rest : List Char} {fields : List (List Char × Tree)} :
    ¬ ReadsFields ('}' :: cs) fields rest := by
  intro h
  cases h with
  | last hfield => cases hfield
  | more hfield _ => cases hfield

theorem not_readsItems_bracket {cs rest : List Char} {items : List Tree} :
    ¬ ReadsItems (']' :: cs) items rest := by
  intro h
  cases h with
  | last hitem => exact not_reads_bracket hitem
  | more hitem _ => exact not_reads_bracket hitem

mutual

/-- The first character settles how a text is read, and what is inside settles the rest. -/
theorem Reads.unique {text rest others : List Char} {t u : Tree} (h : Reads text t rest)
    (h' : Reads text u others) : t = u ∧ rest = others := by
  -- No word, bracket or quote begins an integer, and no item or field begins with a closing
  -- bracket.
  cases h with
  | null =>
    cases h' with
    | null => exact ⟨rfl, rfl⟩
    | int hint => exact absurd hint (integer?_ne_some (by decide) (by decide))
  | trueWord =>
    cases h' with
    | trueWord => exact ⟨rfl, rfl⟩
    | int hint => exact absurd hint (integer?_ne_some (by decide) (by decide))
  | falseWord =>
    cases h' with
    | falseWord => exact ⟨rfl, rfl⟩
    | int hint => exact absurd hint (integer?_ne_some (by decide) (by decide))
  | int hint =>
    cases h' with
    | int hother =>
      rw [hint] at hother
      obtain ⟨rfl, rfl⟩ := Prod.mk.inj (Option.some.inj hother)
      exact ⟨rfl, rfl⟩
    | _ => exact absurd hint (integer?_ne_some (by decide) (by decide))
  | string hstring =>
    cases h' with
    | string hother =>
      obtain ⟨rfl, rfl⟩ := hstring.unique hother
      exact ⟨rfl, rfl⟩
    | int hint => exact absurd hint (integer?_ne_some (by decide) (by decide))
  | emptyList =>
    cases h' with
    | emptyList => exact ⟨rfl, rfl⟩
    | list hitems => exact absurd hitems not_readsItems_bracket
    | int hint => exact absurd hint (integer?_ne_some (by decide) (by decide))
  | list hitems =>
    cases h' with
    | emptyList => exact absurd hitems not_readsItems_bracket
    | list hothers =>
      obtain ⟨rfl, rfl⟩ := hitems.unique hothers
      exact ⟨rfl, rfl⟩
    | int hint => exact absurd hint (integer?_ne_some (by decide) (by decide))
  | emptyObject =>
    cases h' with
    | emptyObject => exact ⟨rfl, rfl⟩
    | object hfields => exact absurd hfields not_readsFields_brace
    | int hint => exact absurd hint (integer?_ne_some (by decide) (by decide))
  | object hfields =>
    cases h' with
    | emptyObject => exact absurd hfields not_readsFields_brace
    | object hothers =>
      obtain ⟨rfl, rfl⟩ := hfields.unique hothers
      exact ⟨rfl, rfl⟩
    | int hint => exact absurd hint (integer?_ne_some (by decide) (by decide))
termination_by sizeOf t

theorem ReadsItems.unique {text rest others : List Char} {items more : List Tree}
    (h : ReadsItems text items rest) (h' : ReadsItems text more others) :
    items = more ∧ rest = others := by
  cases h with
  | last hitem =>
    cases h' with
    | last hother =>
      obtain ⟨rfl, hrest⟩ := hitem.unique hother
      exact ⟨rfl, (List.cons.inj hrest).2⟩
    | more hother _ =>
      obtain ⟨-, hrest⟩ := hitem.unique hother
      simp at hrest
  | more hitem hitems =>
    cases h' with
    | last hother =>
      obtain ⟨-, hrest⟩ := hitem.unique hother
      simp at hrest
    | more hother hothers =>
      obtain ⟨rfl, hrest⟩ := hitem.unique hother
      obtain ⟨-, rfl⟩ := List.cons.inj hrest
      obtain ⟨rfl, rfl⟩ := hitems.unique hothers
      exact ⟨rfl, rfl⟩
termination_by sizeOf items

theorem ReadsField.unique {text rest others : List Char} {field other : List Char × Tree}
    (h : ReadsField text field rest) (h' : ReadsField text other others) :
    field = other ∧ rest = others := by
  obtain ⟨hname, htree⟩ := h
  obtain ⟨hother, htrees⟩ := h'
  obtain ⟨rfl, hbehind⟩ := hname.unique hother
  obtain ⟨-, rfl⟩ := List.cons.inj hbehind
  obtain ⟨rfl, rfl⟩ := htree.unique htrees
  exact ⟨rfl, rfl⟩
termination_by sizeOf field

theorem ReadsFields.unique {text rest others : List Char} {fields more : List (List Char × Tree)}
    (h : ReadsFields text fields rest) (h' : ReadsFields text more others) :
    fields = more ∧ rest = others := by
  cases h with
  | last hfield =>
    cases h' with
    | last hother =>
      obtain ⟨rfl, hrest⟩ := hfield.unique hother
      exact ⟨rfl, (List.cons.inj hrest).2⟩
    | more hother _ =>
      obtain ⟨-, hrest⟩ := hfield.unique hother
      simp at hrest
  | more hfield hfields =>
    cases h' with
    | last hother =>
      obtain ⟨-, hrest⟩ := hfield.unique hother
      simp at hrest
    | more hother hothers =>
      obtain ⟨rfl, hrest⟩ := hfield.unique hother
      obtain ⟨-, rfl⟩ := List.cons.inj hrest
      obtain ⟨rfl, rfl⟩ := hfields.unique hothers
      exact ⟨rfl, rfl⟩
termination_by sizeOf fields

end

/-! ## Reading back what is written -/

def EndsNumber (rest : List Char) : Prop := ∀ c ∈ rest.head?, c.isDigit = false

theorem endsNumber_cons {c : Char} (hc : c.isDigit = false) (cs : List Char) :
    EndsNumber (c :: cs) := by
  intro d hd
  rw [List.head?_cons, Option.mem_some] at hd
  rw [← hd, hc]

/-- The text denotes the tree, whatever follows it. -/
def IsTextOf (text : List Char) (t : Tree) : Prop :=
  ∀ rest, EndsNumber rest → Reads (text ++ rest) t rest

theorem isTextOf_null : IsTextOf ['n', 'u', 'l', 'l'] .null := fun _ _ => .null

theorem isTextOf_bool (b : Bool) : IsTextOf (bool b) (.bool b) := by
  intro rest _
  cases b with
  | true => exact .trueWord
  | false => exact .falseWord

theorem natural?_toDigits (n : Nat) {rest : List Char} (hrest : EndsNumber rest) :
    natural? (Nat.toDigits 10 n ++ rest) = some (n, rest) := by
  have hdigits := Decimal.isNumeral_toDigits n
  have hends : rest.takeWhile Char.isDigit = [] ∧ rest.dropWhile Char.isDigit = rest := by
    cases rest with
    | nil => exact ⟨rfl, rfl⟩
    | cons c cs =>
      have hc : c.isDigit = false := hrest c rfl
      simp [hc]
  have hlead : ¬ (Nat.toDigits 10 n = [] ∨
      1 < (Nat.toDigits 10 n).length ∧ (Nat.toDigits 10 n).head? = some '0') := by
    rintro (hnil | ⟨hlong, hzero⟩)
    · exact hdigits.ne_nil hnil
    · exact hdigits.lead hlong hzero
  unfold natural?
  rw [List.takeWhile_append_of_pos hdigits.isDigit, List.dropWhile_append_of_pos hdigits.isDigit,
    hends.1, hends.2, List.append_nil, if_neg hlead, Nat.ofDigitChars_ten_toDigits]

theorem integer?_of_head?_ne {text : List Char} (h : text.head? ≠ some '-') :
    integer? text = (natural? text).map fun (n, rest) => ((n : Int), rest) := by
  unfold integer?
  split
  · exact absurd rfl h
  · rfl

theorem isTextOf_int (n : Int) : IsTextOf (Decimal.integerText n) (.int n) := by
  intro rest hrest
  apply Reads.int
  cases n with
  | ofNat m =>
    have hhead : (Nat.toDigits 10 m ++ rest).head? ≠ some '-' := by
      obtain ⟨d, ds, hdigits⟩ := List.exists_cons_of_ne_nil (Decimal.isNumeral_toDigits m).ne_nil
      have hd := (Decimal.isNumeral_toDigits m).isDigit d (by simp [hdigits])
      rw [hdigits, List.cons_append, List.head?_cons]
      rintro ⟨⟩
      exact absurd hd (by decide)
    rw [Decimal.integerText_ofNat, integer?_of_head?_ne hhead, natural?_toDigits m hrest]
    rfl
  | negSucc m =>
    rw [Decimal.integerText_negSucc, List.cons_append, integer?, natural?_toDigits _ hrest]
    rfl

theorem hexValue?_hexDigit : ∀ d < 16, hexValue? (hexDigit d) = some d := by
  decide

theorem codeUnit?_hexDigit {n : Nat} (hn : n < 0x100) (rest : List Char) :
    codeUnit? ('0' :: '0' :: hexDigit (n / 16) :: hexDigit (n % 16) :: rest) = some (n, rest) := by
  have hzero : hexValue? '0' = some 0 := rfl
  have hhigh := hexValue?_hexDigit (n / 16) (by omega)
  have hlow := hexValue?_hexDigit (n % 16) (by omega)
  have hvalue : n / 16 * 16 + n % 16 = n := by omega
  simp [codeUnit?, hzero, hhigh, hlow, hvalue]

/-- Escaped or not, a character is read as itself. -/
theorem char?_escaped (c : Char) (rest : List Char) :
    char? (escaped c ++ rest) = some (c, rest) := by
  unfold escaped
  split_ifs with hquote hslash hback hfeed hline hreturn htab hcontrol
  · subst hquote
    rfl
  · subst hslash
    rfl
  · subst hback
    rfl
  · subst hfeed
    rfl
  · subst hline
    rfl
  · subst hreturn
    rfl
  · subst htab
    rfl
  · have hunit := codeUnit?_hexDigit (n := c.toNat) (by omega) rest
    have hplain : c.toNat < 0xD800 := by omega
    simp [char?, coded?, hunit, hplain]
  · simp [char?, hquote, hslash, hcontrol]

theorem readsString_escaped (cs rest : List Char) :
    ReadsString (cs.flatMap escaped ++ '"' :: rest) cs rest := by
  induction cs with
  | nil => exact .close
  | cons c cs ih =>
    rw [List.flatMap_cons, List.append_assoc]
    exact .char (char?_escaped c _) ih

theorem quoted_append (cs rest : List Char) :
    quoted cs ++ rest = '"' :: (cs.flatMap escaped ++ '"' :: rest) := by
  simp [quoted]

theorem isTextOf_text (s : String) : IsTextOf (text s) (.string s.toList) := by
  intro rest _
  unfold text
  rw [quoted_append]
  exact .string (readsString_escaped s.toList rest)

theorem commaSeparated_singleton (item : List Char) : commaSeparated [item] = item := by
  simp [commaSeparated, List.intercalate]

theorem commaSeparated_cons (item : List Char) {items : List (List Char)} (h : items ≠ []) :
    commaSeparated (item :: items) = item ++ ',' :: commaSeparated items := by
  obtain ⟨next, more, rfl⟩ := List.exists_cons_of_ne_nil h
  simp [commaSeparated, List.intercalate]

section Items

variable {ι : Type} {es : List ι} {text : ι → List Char} {tree : ι → Tree} {name : ι → String}

theorem readsItems_commaSeparated (hes : es ≠ []) (h : ∀ e ∈ es, IsTextOf (text e) (tree e))
    (rest : List Char) :
    ReadsItems (commaSeparated (es.map text) ++ ']' :: rest) (es.map tree) rest := by
  induction es with
  | nil => exact absurd rfl hes
  | cons e es ih =>
    have he := h e List.mem_cons_self
    by_cases hlast : es = []
    · subst hlast
      rw [List.map_singleton, commaSeparated_singleton]
      exact .last (he _ (endsNumber_cons (c := ']') (by decide) rest))
    · have hmore := ih hlast fun e he => h e (List.mem_cons_of_mem _ he)
      rw [List.map_cons, commaSeparated_cons _ (by simpa using hlast), List.append_assoc]
      exact .more (he _ (endsNumber_cons (c := ',') (by decide) _)) hmore

theorem isTextOf_list (h : ∀ e ∈ es, IsTextOf (text e) (tree e)) :
    IsTextOf (list (es.map text)) (.list (es.map tree)) := by
  intro rest _
  have hlist : list (es.map text) ++ rest =
      '[' :: (commaSeparated (es.map text) ++ ']' :: rest) := by
    simp [list]
  rw [hlist]
  by_cases hes : es = []
  · subst hes
    exact .emptyList
  · exact .list (readsItems_commaSeparated hes h rest)

theorem readsField_field (n : String) {value : List Char} {t : Tree} (h : IsTextOf value t)
    {rest : List Char} (hrest : EndsNumber rest) :
    ReadsField (field n value ++ rest) (n.toList, t) rest := by
  have hfield : field n value ++ rest =
      '"' :: (n.toList.flatMap escaped ++ '"' :: ':' :: (value ++ rest)) := by
    simp [field, Json.text, quoted]
  rw [hfield]
  exact .mk (readsString_escaped n.toList _) (h rest hrest)

theorem readsFields_commaSeparated (hes : es ≠ []) (h : ∀ e ∈ es, IsTextOf (text e) (tree e))
    (rest : List Char) :
    ReadsFields (commaSeparated (es.map fun e => field (name e) (text e)) ++ '}' :: rest)
      (es.map fun e => ((name e).toList, tree e)) rest := by
  induction es with
  | nil => exact absurd rfl hes
  | cons e es ih =>
    have he := h e List.mem_cons_self
    by_cases hlast : es = []
    · subst hlast
      rw [List.map_singleton, commaSeparated_singleton]
      exact .last (readsField_field (name e) he (endsNumber_cons (c := '}') (by decide) rest))
    · have hmore := ih hlast fun e he => h e (List.mem_cons_of_mem _ he)
      rw [List.map_cons, commaSeparated_cons _ (by simpa using hlast), List.append_assoc]
      exact .more (readsField_field (name e) he (endsNumber_cons (c := ',') (by decide) _)) hmore

theorem isTextOf_object (h : ∀ e ∈ es, IsTextOf (text e) (tree e)) :
    IsTextOf (object (es.map fun e => field (name e) (text e)))
      (.object (es.map fun e => ((name e).toList, tree e))) := by
  intro rest _
  have hobject : object (es.map fun e => field (name e) (text e)) ++ rest =
      '{' :: (commaSeparated (es.map fun e => field (name e) (text e)) ++ '}' :: rest) := by
    simp [object]
  rw [hobject]
  by_cases hes : es = []
  · subst hes
    exact .emptyObject
  · exact .object (readsFields_commaSeparated hes h rest)

end Items

end Docblock.Json
