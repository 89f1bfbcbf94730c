import Docblock.Proofs.Token.Languages
import Docblock.Proofs.Token.Paths

/-!
# Tokens are longest matches

A token that starts as a number or as a name is the longest prefix of the remaining text in the
language. Any other token is a whole string or a single character, and a quote is a single character
if and only if no quote behind it closes it.
-/

namespace Docblock

namespace Lexeme

variable {c : Char} {cs front before after : List Char}

/-- If a string is not closed then every quote is escaped. -/
theorem isEscaped_of_stringTail (h : stringTail cs = none)
    (hfront : IsEscaped front → ∀ c, cs.head? = some c → c ≠ '"' ∧ c ≠ '\\')
    (hsplit : cs = before ++ '"' :: after) : IsEscaped (front ++ before) := by
  fun_induction stringTail cs generalizing front before with
  | case1 => simp at hsplit
  | case2 cs => cases h
  | case3 =>
    obtain - | ⟨c, before⟩ := before
    · cases (List.cons.inj hsplit).1
    · simp at hsplit
  | case4 d ds hspecial _ ih =>
    have hbare : ¬ IsEscaped front := fun hescaped => (hfront hescaped '\\' rfl).2 rfl
    have hhidden : IsEscaped (front ++ ['\\']) := (isEscaped_concat front '\\').2 ⟨rfl, hbare⟩
    obtain - | ⟨c, - | ⟨e, before⟩⟩ := before
    · cases (List.cons.inj hsplit).1
    · obtain ⟨rfl, -⟩ := List.cons.inj hsplit
      exact hhidden
    · simp only [List.cons_append, List.cons.injEq] at hsplit
      obtain ⟨rfl, rfl, hrest⟩ := hsplit
      have hlater := ih (Option.map_eq_none_iff.1 h)
        (fun hescaped => absurd hescaped (not_isEscaped_hidden hbare d)) hrest
      rw [List.append_assoc] at hlater
      exact hlater
  | case5 d ds hplain hslash ih =>
    cases before with
    | nil => cases (List.cons.inj hsplit).1
    | cons c before =>
      obtain ⟨rfl, hrest⟩ := List.cons.inj hsplit
      have hnext (e : Char) (he : (d :: ds).head? = some e) : e ≠ '"' ∧ e ≠ '\\' := by
        obtain rfl := Option.some.inj he
        simpa using hplain
      have hlater := ih (Option.map_eq_none_iff.1 h)
        (fun (_ : IsEscaped (front ++ ['\\'])) => hnext) hrest
      rw [List.append_assoc] at hlater
      exact hlater
  | case6 c cs hquote hslash ih =>
    cases before with
    | nil => exact absurd (List.cons.inj hsplit).1 hquote
    | cons d before =>
      obtain ⟨rfl, hrest⟩ := List.cons.inj hsplit
      have hlater := ih (Option.map_eq_none_iff.1 h)
        (fun hescaped => absurd ((isEscaped_concat front c).1 hescaped).1 hslash) hrest
      rw [List.append_assoc] at hlater
      exact hlater

theorem stringTail_eq_none_iff : stringTail cs = none ↔
    ∀ before after, cs = before ++ '"' :: after → IsEscaped before := by
  constructor
  · intro h before after hsplit
    exact isEscaped_of_stringTail h (fun hescaped => absurd hescaped not_isEscaped_nil) hsplit
  · intro hall
    cases htail : stringTail cs with
    | none => rfl
    | some found =>
      obtain ⟨text, source, rest⟩ := found
      have hbody := stringBody_of_stringTail htail
      obtain ⟨inner, hsource, -⟩ := hbody.content
      have hbare : ¬ IsEscaped ([] ++ inner) :=
        (hbody.bare_iff (fun hescaped => absurd hescaped not_isEscaped_nil) hsource).2 rfl
      have hwhole := stringTail_append htail
      rw [hsource, List.append_assoc] at hwhole
      exact absurd (hall inner rest hwhole.symm) hbare

def StartsNumber : List Char → Prop
  | [] => False
  | c :: cs => c.isDigit = true ∨ Decimal.isSign c = true ∧ startsWith Char.isDigit cs = true

def StartsName : List Char → Prop
  | [] => False
  | c :: cs => isNameStart c = true ∨ c = '\\' ∧ startsWith isNameStart cs = true

def punctuation : Char → TokenKind
  | '@' => .atSign
  | '(' => .openParen
  | ')' => .closeParen
  | '{' => .openBrace
  | '}' => .closeBrace
  | ',' => .comma
  | ':' => .colon
  | '=' => .equals
  | '\\' => .separator
  | _ => .other

theorem read_of_startsNumber (h : StartsNumber (c :: cs)) :
    read c cs = number (c :: cs) ∧ startsWith Char.isDigit (sign (c :: cs)).2 = true := by
  constructor
  · refine read_of_number ?_
    rw [Bool.or_eq_true, Bool.and_eq_true]
    exact h
  · obtain hdigit | ⟨hsign, hdigit⟩ := h
    · simp [sign, isSign_of_isDigit hdigit, startsWith, hdigit]
    · simp [sign, hsign, hdigit]

theorem read_of_startsName (h : StartsName (c :: cs)) : read c cs = name c cs ∧
    IsLongest names (c :: cs) (c :: (nameTail cs).1) := by
  obtain hstart | ⟨rfl, hstart⟩ := h
  · exact ⟨read_of_isNameStart hstart, isLongest_name hstart⟩
  · exact ⟨if_pos hstart, isLongest_separated hstart⟩

/-- What is no number and no name is read as a string or as a single character. -/
theorem read_of_neither (hnumber : ¬ StartsNumber (c :: cs)) (hname : ¬ StartsName (c :: cs)) :
    c = '"' ∧ read c cs = string cs ∨ read c cs = single (punctuation c) c cs := by
  unfold StartsNumber at hnumber
  unfold StartsName at hname
  unfold read
  split
  case h_9 => exact .inl ⟨rfl, rfl⟩
  case h_10 => exact .inr (if_neg fun hstart => hname (.inr ⟨rfl, hstart⟩))
  case h_11 =>
    right
    have hnone : ¬ (c.isDigit || (Decimal.isSign c && startsWith Char.isDigit cs)) = true := by
      rw [Bool.or_eq_true, Bool.and_eq_true]
      exact hnumber
    rw [if_neg hnone, if_neg fun hstart => hname (.inl hstart)]
    unfold punctuation
    split <;> first | rfl | contradiction
  all_goals exact .inr rfl

theorem punctuation_ne (d : Char) : (punctuation d).isClassPart = false ∧
    punctuation d ≠ .integer ∧ punctuation d ≠ .float ∧ punctuation d ≠ .string := by
  unfold punctuation
  split <;> decide

theorem eq_of_punctuation {d : Char} (h : punctuation c = punctuation d)
    (hd : punctuation d ≠ .other) : c = d := by
  unfold punctuation at h hd
  split at hd <;> split at h <;> first | rfl | exact absurd rfl hd | cases h

theorem text_of_punctuation {d : Char} (h : (read c cs).kind = punctuation d)
    (hd : punctuation d ≠ .other) : (read c cs).text = [d] := by
  obtain ⟨hpart, hinteger, hfloat, hstring⟩ := punctuation_ne d
  by_cases hnumber : StartsNumber (c :: cs)
  · rw [(read_of_startsNumber hnumber).1] at h
    obtain hkind | hkind := kind_number (c :: cs)
    · exact absurd (h.symm.trans hkind) hinteger
    · exact absurd (h.symm.trans hkind) hfloat
  by_cases hname : StartsName (c :: cs)
  · rw [(read_of_startsName hname).1] at h
    have hclass : (name c cs).kind.isClassPart = true := isClassPart_nameKind (c :: (nameTail cs).1)
    rw [h, hpart] at hclass
    cases hclass
  obtain ⟨rfl, hread⟩ | hread := read_of_neither hnumber hname
  · rw [hread] at h
    unfold string at h
    split at h
    · exact absurd h.symm hstring
    · exact absurd h.symm hd
  · rw [hread] at h ⊢
    rw [← eq_of_punctuation h hd]
    rfl

end Lexeme

namespace Token

open Lexeme

/-- What a token takes of the text that starts with it. -/
structure Munches (t : Token) (source text : List Char) : Prop where
  number : StartsNumber text → IsLongest numbers text source ∧
    (t.kind = .integer ∧ source ∈ wholeNumbers ∨ t.kind = .float ∧ source ∉ wholeNumbers)
  name : StartsName text → IsLongest names text source ∧ t.kind = nameKind source
  other : ¬ StartsNumber text → ¬ StartsName text →
    t.kind = .string ∧ Quotes source t.text.toList ∨ ∃ c, source = [c] ∧ t.kind = punctuation c
  quote : ∀ behind, text = '"' :: behind →
    (t.kind = .other ↔ ∀ before after, behind = before ++ '"' :: after → IsEscaped before)

def ofLexeme (p : Position) (l : Lexeme) : Token :=
  ⟨l.kind, String.ofList l.text, p, (p.afterAll l.source).offset⟩

theorem munches_read (p : Position) (c : Char) (cs : List Char) :
    Munches (ofLexeme p (read c cs)) (read c cs).source (c :: cs) where
  number hstart := by
    obtain ⟨hread, hdigit⟩ := read_of_startsNumber hstart
    unfold ofLexeme
    rw [hread]
    exact ⟨isLongest_number hdigit, kind_number_cases hdigit⟩
  name hstart := by
    obtain ⟨hread, hlongest⟩ := read_of_startsName hstart
    unfold ofLexeme
    rw [hread]
    exact ⟨hlongest, rfl⟩
  other hnumber hname := by
    unfold ofLexeme
    obtain ⟨rfl, hread⟩ | hread := read_of_neither hnumber hname
    · rw [hread]
      unfold string
      cases htail : stringTail cs with
      | none => exact .inr ⟨'"', rfl, rfl⟩
      | some found =>
        rw [String.toList_ofList]
        exact .inl ⟨rfl, quotes_of_stringTail htail⟩
    · rw [hread]
      exact .inr ⟨c, rfl, rfl⟩
  quote behind htext := by
    obtain ⟨rfl, rfl⟩ := List.cons.inj htext
    rw [← stringTail_eq_none_iff]
    change (string cs).kind = .other ↔ _
    unfold string
    cases stringTail cs with
    | none => exact ⟨fun _ => rfl, fun _ => rfl⟩
    | some found => exact ⟨nofun, nofun⟩

theorem exists_read_of_mem_scanFrom {skip : Nat} {p : Position} {cs : List Char} {t : Token}
    (h : t ∈ scanFrom skip p cs) : ∃ before c rest, cs = before ++ c :: rest ∧
      t = ofLexeme (p.afterAll before) (read c rest) := by
  induction cs generalizing skip p with
  | nil => cases h
  | cons c cs ih =>
    have hlater {skip : Nat} (h : t ∈ scanFrom skip (p.after c) cs) : ∃ before d rest,
        c :: cs = before ++ d :: rest ∧ t = ofLexeme (p.afterAll before) (read d rest) := by
      obtain ⟨before, d, rest, rfl, ht⟩ := ih h
      exact ⟨c :: before, d, rest, rfl, ht⟩
    cases skip with
    | succ skip => exact hlater h
    | zero =>
      unfold scanFrom at h
      dsimp only at h
      split at h
      · exact hlater h
      · obtain rfl | h := List.mem_cons.1 h
        · exact ⟨[], c, cs, rfl, rfl⟩
        · exact hlater h

theorem text_of_mem_scanFrom {skip : Nat} {p : Position} {cs : List Char} {t : Token} {d : Char}
    (h : t ∈ scanFrom skip p cs) (hkind : t.kind = punctuation d) (hd : punctuation d ≠ .other) :
    t.text = String.ofList [d] := by
  obtain ⟨before, c, rest, -, rfl⟩ := exists_read_of_mem_scanFrom h
  exact congrArg String.ofList (text_of_punctuation hkind hd)

/-- Every token is a slice of the text, and is the longest match where it starts. -/
theorem munches_scan {input : String} {t : Token} (ht : t ∈ scan input) :
    ∃ before source after, input.toList = before ++ (source ++ after) ∧
      t.start.offset = (String.ofList before).utf8ByteSize ∧
      t.stop = (String.ofList (before ++ source)).utf8ByteSize ∧ t.Spells source ∧
      t.Munches source (source ++ after) := by
  obtain ⟨before, c, rest, hinput, rfl⟩ := exists_read_of_mem_scanFrom ht
  have hwhole := read_append c rest
  refine ⟨before, (read c rest).source, (read c rest).rest, ?_, ?_, ?_, ?_, ?_⟩
  · rw [hwhole, hinput]
  · exact (offset_afterAll .start before).trans (Nat.zero_add _)
  · change ((Position.start.afterAll before).afterAll _).offset = _
    rw [← Position.afterAll_append]
    exact (offset_afterAll .start _).trans (Nat.zero_add _)
  · exact spells_read c rest _ _
  · rw [hwhole]
    exact munches_read _ c rest

theorem munches_scan_integer :
    ∃ before source after, "+12.x".toList = before ++ (source ++ after) ∧
      (String.ofList before).utf8ByteSize = 0 ∧
      (String.ofList (before ++ source)).utf8ByteSize = 3 ∧
      (⟨.integer, "+12", .start, 3⟩ : Token).Munches source (source ++ after) := by
  have hmem : ⟨.integer, "+12", .start, 3⟩ ∈ scan "+12.x" := by decide
  obtain ⟨before, source, after, hinput, hstart, hstop, -, hmunches⟩ := munches_scan hmem
  exact ⟨before, source, after, hinput, hstart.symm, hstop.symm, hmunches⟩

end Token

end Docblock
