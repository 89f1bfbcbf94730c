import Docblock.Proofs.Grammar.Soundness
import Docblock.Proofs.Value.Source

/-!
# The tokens of a written value

Scanning a value as it is written gives tokens that spell it, whatever comes before and after.
Tokens that spell a value are a phrase of the grammar for it, with as many collections inside one
another as the value has arrays.
-/

namespace Docblock

/-- In front of `rest` the characters `cs` are scanned into tokens of their own. -/
def Scans (cs rest : List Char) (spelled : List Token → Prop) : Prop :=
  ∀ p, ∃ used q, Token.scanFrom 0 p (cs ++ rest) = used ++ Token.scanFrom 0 q rest ∧ spelled used

theorem Scans.append {cs ds rest : List Char} {spelled others : List Token → Prop}
    (hc : Scans cs (ds ++ rest) spelled) (hd : Scans ds rest others) :
    Scans (cs ++ ds) rest fun used => ∃ a b, used = a ++ b ∧ spelled a ∧ others b := by
  intro p
  obtain ⟨a, q, hscan, ha⟩ := hc p
  obtain ⟨b, r, hrest, hb⟩ := hd q
  refine ⟨a ++ b, r, ?_, a, b, rfl, ha, hb⟩
  rw [List.append_assoc, hscan, hrest, List.append_assoc]

theorem Scans.mono {cs rest : List Char} {spelled others : List Token → Prop}
    (h : Scans cs rest spelled) (hmono : ∀ used, spelled used → others used) :
    Scans cs rest others := by
  intro p
  obtain ⟨used, q, hscan, hused⟩ := h p
  exact ⟨used, q, hscan, hmono used hused⟩

theorem scans_lexeme {c : Char} {cs text rest : List Char} {kind : TokenKind}
    (hpadding : Lexeme.isPadding c = false)
    (hread : Lexeme.read c (cs ++ rest) = ⟨kind, text, c :: cs, rest⟩) :
    Scans (c :: cs) rest fun used =>
      ∃ t, used = [t] ∧ t.kind = kind ∧ t.text = String.ofList text := by
  intro p
  exact ⟨[_], _, Token.scanFrom_lexeme hpadding hread, _, rfl, rfl, rfl⟩

theorem scans_padding {c : Char} {rest : List Char} (hpadding : Lexeme.isPadding c = true) :
    Scans [c] rest fun used => used = [] := by
  intro p
  exact ⟨[], p.after c, Token.scanFrom_padding hpadding, rfl⟩

namespace Value

inductive SpellsKey : Token → Key → Prop where
  | int {t : Token} {index : Int64} : t.kind = .integer →
      t.text = String.ofList (Decimal.machineText index) → SpellsKey t (.int index)
  | text {t : Token} {name : String} : t.kind = .string → t.text = name → SpellsKey t (.text name)

mutual

inductive Spells : Value → List Token → Prop where
  | null {t : Token} : t.kind = .nullWord → Spells .null [t]
  | trueWord {t : Token} : t.kind = .trueWord → Spells (.bool true) [t]
  | falseWord {t : Token} : t.kind = .falseWord → Spells (.bool false) [t]
  | int {t : Token} {n : Int64} : t.kind = .integer →
      t.text = String.ofList (Decimal.machineText n) → Spells (.int n) [t]
  | string {t : Token} {s : String} : t.kind = .string → t.text = s → Spells (.string s) [t]
  | array {opener closer : Token} {used : List Token} {entries : List (Key × Value)}
      {next : Int64} : opener.kind = .openBrace →
      SpellsEntries (isListing entries) entries used → closer.kind = .closeBrace →
      Spells (.array ⟨entries, next⟩) (opener :: (used ++ [closer]))

inductive SpellsEntry : Bool → Key → Value → List Token → Prop where
  | listed {key : Key} {v : Value} {used : List Token} : Spells v used →
      SpellsEntry true key v used
  | keyed {key : Key} {v : Value} {t sep : Token} {used : List Token} : SpellsKey t key →
      sep.kind = .colon → Spells v used → SpellsEntry false key v (t :: sep :: used)

inductive SpellsEntries : Bool → List (Key × Value) → List Token → Prop where
  | nil {listing : Bool} : SpellsEntries listing [] []
  | last {listing : Bool} {key : Key} {v : Value} {used : List Token} :
      SpellsEntry listing key v used → SpellsEntries listing [(key, v)] used
  | more {listing : Bool} {key : Key} {v : Value} {rest : List (Key × Value)} {comma : Token}
      {used others : List Token} : SpellsEntry listing key v used → comma.kind = .comma →
      rest ≠ [] → SpellsEntries listing rest others →
      SpellsEntries listing ((key, v) :: rest) (used ++ comma :: others)

end

def Closes (rest : List Char) : Prop :=
  ∃ c cs, rest = c :: cs ∧ (c = ',' ∨ c = '}' ∨ c = ')')

theorem Closes.stopsNumber {rest : List Char} (h : Closes rest) : Lexeme.StopsNumber rest := by
  obtain ⟨c, cs, rfl, hc⟩ := h
  intro d hd
  obtain rfl := Option.some.inj hd
  obtain rfl | rfl | rfl := hc <;> decide

theorem Closes.stopsName {rest : List Char} (h : Closes rest) : Lexeme.StopsName rest := by
  obtain ⟨c, cs, rfl, hc⟩ := h
  intro d hd
  obtain rfl := Option.some.inj hd
  obtain rfl | rfl | rfl := hc <;> decide

theorem scans_machineText (n : Int64) {rest : List Char} (hrest : Lexeme.StopsNumber rest) :
    Scans (Decimal.machineText n) rest fun used => ∃ t, used = [t] ∧ t.kind = .integer ∧
      t.text = String.ofList (Decimal.machineText n) := by
  obtain ⟨c, cs, htext, hpadding, hread⟩ := Lexeme.read_machineText n hrest
  rw [htext] at hread ⊢
  exact scans_lexeme hpadding hread

theorem scans_quoted (s : String) (rest : List Char) :
    Scans (Lexeme.quoted s) rest fun used => ∃ t, used = [t] ∧ t.kind = .string ∧ t.text = s := by
  have hread : Lexeme.read '"' (Lexeme.escaped s.toList ++ ['"'] ++ rest) =
      ⟨.string, s.toList, Lexeme.quoted s, rest⟩ := by
    rw [List.append_assoc]
    exact Lexeme.read_quoted s rest
  have hscans := scans_lexeme (by decide) hread
  rw [String.ofList_toList] at hscans
  exact hscans

theorem scans_word {c : Char} {cs rest : List Char} (hstart : Lexeme.isNameStart c = true)
    (hpadding : Lexeme.isPadding c = false) (htail : Lexeme.nameTail cs = (cs, []))
    (hrest : Lexeme.StopsName rest) :
    Scans (c :: cs) rest fun used => ∃ t, used = [t] ∧ t.kind = Lexeme.nameKind (c :: cs) ∧
      t.text = String.ofList (c :: cs) := by
  refine scans_lexeme hpadding ?_
  rw [Lexeme.read_of_isNameStart hstart, Lexeme.name_append_rest htail hrest]

theorem scans_single {c : Char} {rest : List Char} {kind : TokenKind}
    (hpadding : Lexeme.isPadding c = false)
    (hread : Lexeme.read c rest = Lexeme.single kind c rest) :
    Scans [c] rest fun used => ∃ t, used = [t] ∧ t.kind = kind ∧ t.text = String.ofList [c] :=
  scans_lexeme hpadding hread

theorem scans_key (key : Key) (rest : List Char) :
    Scans (key.source ++ [':', ' ']) rest fun used =>
      ∃ t sep, used = [t, sep] ∧ SpellsKey t key ∧ sep.kind = .colon := by
  have hcolon : Scans [':', ' '] rest fun used => ∃ sep, used = [sep] ∧ sep.kind = .colon := by
    have hboth : Scans ([':'] ++ [' ']) rest _ :=
      (scans_single (by decide) rfl).append (scans_padding (by decide))
    refine hboth.mono ?_
    rintro used ⟨a, b, rfl, ⟨sep, rfl, hkind, -⟩, rfl⟩
    exact ⟨sep, rfl, hkind⟩
  have hkey : Scans key.source ([':', ' '] ++ rest)
      fun used => ∃ t, used = [t] ∧ SpellsKey t key := by
    cases key with
    | int index =>
      have hstops : Lexeme.StopsNumber ([':', ' '] ++ rest) := by
        intro d hd
        obtain rfl := Option.some.inj hd
        decide
      refine (scans_machineText index hstops).mono ?_
      rintro used ⟨t, rfl, hkind, htext⟩
      exact ⟨t, rfl, .int hkind htext⟩
    | text name =>
      refine (scans_quoted name _).mono ?_
      rintro used ⟨t, rfl, hkind, htext⟩
      exact ⟨t, rfl, .text hkind htext⟩
  refine (hkey.append hcolon).mono ?_
  rintro used ⟨a, b, rfl, ⟨t, rfl, ht⟩, sep, rfl, hsep⟩
  exact ⟨t, sep, rfl, ht, hsep⟩

theorem scans_nothing (rest : List Char) : Scans [] rest fun used => used = [] :=
  fun p => ⟨[], p, rfl, rfl⟩

theorem scans_comma (rest : List Char) :
    Scans [',', ' '] rest fun used => ∃ comma, used = [comma] ∧ comma.kind = .comma := by
  have hboth : Scans ([','] ++ [' ']) rest _ :=
    (scans_single (by decide) rfl).append (scans_padding (by decide))
  refine hboth.mono ?_
  rintro used ⟨a, b, rfl, ⟨comma, rfl, hkind, -⟩, rfl⟩
  exact ⟨comma, rfl, hkind⟩

mutual

/-- A written value is scanned into tokens that spell it. -/
theorem scans_source : (v : Value) → v.IsWritable → (rest : List Char) → Closes rest →
    Scans v.source rest (Spells v)
  | null, _, rest, hrest => by
    unfold source
    refine (scans_word (by decide) (by decide) (by decide) hrest.stopsName).mono ?_
    rintro used ⟨t, rfl, hkind, -⟩
    exact .null (hkind.trans (by decide))
  | bool true, _, rest, hrest => by
    unfold source
    refine (scans_word (by decide) (by decide) (by decide) hrest.stopsName).mono ?_
    rintro used ⟨t, rfl, hkind, -⟩
    exact .trueWord (hkind.trans (by decide))
  | bool false, _, rest, hrest => by
    unfold source
    refine (scans_word (by decide) (by decide) (by decide) hrest.stopsName).mono ?_
    rintro used ⟨t, rfl, hkind, -⟩
    exact .falseWord (hkind.trans (by decide))
  | int n, _, rest, hrest => by
    unfold source
    refine (scans_machineText n hrest.stopsNumber).mono ?_
    rintro used ⟨t, rfl, hkind, htext⟩
    exact .int hkind htext
  | string s, _, rest, _ => by
    unfold source
    refine (scans_quoted s rest).mono ?_
    rintro used ⟨t, rfl, hkind, htext⟩
    exact .string hkind htext
  | array ⟨entries, next⟩, h, rest, _ => by
    unfold IsWritable at h
    have hinner := scans_entriesSource (isListing entries) entries h.2 ('}' :: rest)
      ⟨'}', rest, rfl, .inr (.inl rfl)⟩
    have hopen : Scans ['{'] (entriesSource (isListing entries) entries ++ ['}'] ++ rest) _ :=
      scans_single (by decide) rfl
    have hclose : Scans ['}'] rest _ := scans_single (by decide) rfl
    unfold source
    refine (hopen.append (hinner.append hclose)).mono ?_
    rintro used ⟨a, b, rfl, ⟨opener, rfl, hkind, -⟩, c, d, rfl, hc, closer, rfl, hlast, -⟩
    exact .array hkind hc hlast
  | float _, h, _, _ => by
    unfold IsWritable at h
    exact h.elim
  | object _ _, h, _, _ => by
    unfold IsWritable at h
    exact h.elim

theorem scans_entriesSource : (listing : Bool) → (entries : List (Key × Value)) →
    EntriesWritable entries → (rest : List Char) → Closes rest →
    Scans (entriesSource listing entries) rest (SpellsEntries listing entries)
  | listing, [], _, rest, _ => by
    unfold entriesSource
    refine (scans_nothing rest).mono ?_
    rintro used rfl
    exact .nil
  | listing, (key, v) :: more, h, rest, hrest => by
    unfold EntriesWritable at h
    have hmore := scans_entriesSource listing more h.2.2 rest hrest
    have hends : Closes ((if more.isEmpty then []
        else [',', ' '] ++ entriesSource listing more) ++ rest) := by
      split
      · exact hrest
      · exact ⟨',', _, rfl, .inl rfl⟩
    have hvalue := scans_source v h.2.1 _ hends
    have hentry : Scans ((if listing then [] else key.source ++ [':', ' ']) ++ v.source)
        ((if more.isEmpty then [] else [',', ' '] ++ entriesSource listing more) ++ rest)
        (SpellsEntry listing key v) := by
      cases listing with
      | true =>
        refine ((scans_nothing _).append hvalue).mono ?_
        rintro used ⟨a, b, rfl, rfl, hb⟩
        exact .listed hb
      | false =>
        refine ((scans_key key _).append hvalue).mono ?_
        rintro used ⟨a, b, rfl, ⟨t, sep, rfl, ht, hsep⟩, hb⟩
        exact .keyed ht hsep hb
    unfold entriesSource
    rw [← List.append_assoc]
    cases more with
    | nil =>
      refine (hentry.append (scans_nothing rest)).mono ?_
      rintro used ⟨a, b, rfl, ha, rfl⟩
      rw [List.append_nil]
      exact .last ha
    | cons next others =>
      refine (hentry.append ((scans_comma _).append hmore)).mono ?_
      rintro used ⟨a, b, rfl, ha, c, d, rfl, ⟨comma, rfl, hcomma⟩, hd⟩
      exact .more ha hcomma (List.cons_ne_nil next others) hd

end

end Value

end Docblock
