import Docblock.Proofs.Value.Spelling
import Docblock.Reading.DocText

/-!
# Annotations as they are written

An annotation with one named argument, its class fully qualified, is written as a doc comment of its
own. Scanning it gives the tokens of the name directly behind the `@`, of the argument, and of the
value.
-/

namespace Docblock

open Token (IsWhole)

def annotationChars (className property : String) (v : Value) : List Char :=
  ('@' :: ("\\" ++ className).toList) ++ (['('] ++ (property.toList ++ ([' ', '=', ' '] ++
    (v.source ++ [')']))))

def annotationSource (className property : String) (v : Value) : String :=
  String.ofList (annotationChars className property v)

inductive SpellsAnnotation (className property : String) (v : Value) : List Token → Prop where
  | mk {sign name opener key sep closer : Token} {used : List Token} : sign.kind = .atSign →
      sign.isAdjacent name = true → name.kind = .qualifiedName → name.text = "\\" ++ className →
      opener.kind = .openParen → key.kind = .identifier → key.text = property →
      sep.kind = .equals → v.Spells used → closer.kind = .closeParen →
      SpellsAnnotation className property v
        (sign :: name :: opener :: key :: sep :: (used ++ [closer]))

theorem body?_annotationSource (className property : String) (v : Value) :
    DocText.body? (annotationSource className property v) =
      some (annotationSource className property v) := by
  have hends : ∃ inner, annotationChars className property v = '@' :: inner ++ [')'] :=
    ⟨("\\" ++ className).toList ++ (['('] ++ (property.toList ++ ([' ', '=', ' '] ++ v.source))),
      by simp [annotationChars]⟩
  obtain ⟨inner, hinner⟩ := hends
  have htrim : Text.trimList DocText.isFrame ('@' :: inner ++ [')']) = '@' :: inner ++ [')'] := by
    have hfirst : ('@' :: inner ++ [')']).dropWhile DocText.isFrame = '@' :: inner ++ [')'] := rfl
    rw [Text.trimList, hfirst, Text.trimEndList_concat]
    rfl
  have hat : DocText.fromFirstAt? true ('@' :: inner ++ [')']) = some ('@' :: inner ++ [')']) := rfl
  unfold DocText.body? annotationSource
  rw [String.toList_ofList, hinner, hat, Option.map_some, htrim]

theorem scans_name {kind : TokenKind} {s : String} (h : IsWhole kind s) (hkind : kind.isName = true)
    {rest : List Char} (hrest : Lexeme.StopsName rest) :
    Scans s.toList rest fun used => ∃ t, used = [t] ∧ t.kind = kind ∧ t.text = s := by
  obtain ⟨c, cs, hs, hpadding, hread⟩ := h.read hkind hrest
  have hscans := scans_lexeme hpadding hread
  rw [← hs, String.ofList_toList] at hscans
  exact hscans

/-- A sign and the name directly behind it, which ends where what is left starts. -/
theorem scanFrom_signedName {kind : TokenKind} {s : String} (h : IsWhole kind s)
    (hkind : kind.isName = true) {rest : List Char} (hrest : Lexeme.StopsName rest) (p : Position) :
    ∃ sign name q, Token.scanFrom 0 p ('@' :: s.toList ++ rest) =
        [sign, name] ++ Token.scanFrom 0 q rest ∧ name.stop = q.offset ∧ sign.kind = .atSign ∧
      sign.isAdjacent name = true ∧ name.kind = kind ∧ name.text = s := by
  obtain ⟨c, cs, hs, hpadding, hread⟩ := h.read hkind hrest
  have hsign : Lexeme.read '@' (s.toList ++ rest) =
      ⟨.atSign, ['@'], ['@'], s.toList ++ rest⟩ := rfl
  have hfirst := Token.scanFrom_lexeme (p := p) (by decide) hsign
  have hname := Token.scanFrom_lexeme (p := p.afterAll ['@']) hpadding hread
  have htext : String.ofList (c :: cs) = s := by rw [← hs, String.ofList_toList]
  rw [htext] at hname
  refine ⟨⟨.atSign, String.ofList ['@'], p, (p.afterAll ['@']).offset⟩,
    ⟨kind, s, p.afterAll ['@'], ((p.afterAll ['@']).afterAll (c :: cs)).offset⟩,
    (p.afterAll ['@']).afterAll (c :: cs), ?_, rfl, rfl, beq_self_eq_true _, rfl, rfl⟩
  rw [List.cons_append, hfirst, hs, List.cons_append, hname]
  rfl

theorem scans_signedName {kind : TokenKind} {s : String} (h : IsWhole kind s)
    (hkind : kind.isName = true) {rest : List Char} (hrest : Lexeme.StopsName rest) :
    Scans ('@' :: s.toList) rest fun used => ∃ sign name, used = [sign, name] ∧
      sign.kind = .atSign ∧ sign.isAdjacent name = true ∧ name.kind = kind ∧ name.text = s := by
  intro p
  obtain ⟨sign, name, q, hscan, -, hspells⟩ := scanFrom_signedName h hkind hrest p
  exact ⟨[sign, name], q, hscan, sign, name, rfl, hspells⟩

theorem scans_sign (rest : List Char) :
    Scans [' ', '=', ' '] rest fun used => ∃ sep, used = [sep] ∧ sep.kind = .equals := by
  have hall : Scans ([' '] ++ (['='] ++ [' '])) rest _ :=
    (scans_padding (by decide)).append
      ((Value.scans_single (by decide) rfl).append (scans_padding (by decide)))
  refine hall.mono ?_
  rintro used ⟨a, b, rfl, rfl, c, d, rfl, ⟨sep, rfl, hkind, -⟩, rfl⟩
  exact ⟨sep, rfl, hkind⟩

theorem stopsName_cons {c : Char} (hc : c = '(' ∨ c = ' ') (cs : List Char) :
    Lexeme.StopsName (c :: cs) := by
  intro d hd
  obtain rfl := Option.some.inj hd
  obtain rfl | rfl := hc <;> decide

/-- The tokens of a written annotation spell it. -/
theorem scan_annotationSource {className property : String} {v : Value}
    (hclass : IsWhole .qualifiedName ("\\" ++ className)) (hproperty : IsWhole .identifier property)
    (hv : v.IsWritable) :
    SpellsAnnotation className property v (Token.scan (annotationSource className property v)) := by
  have hvalue := Value.scans_source v hv [')'] ⟨')', [], rfl, .inr (.inr rfl)⟩
  have hclose : Scans [')'] [] _ := Value.scans_single (by decide) rfl
  have hopen (rest : List Char) : Scans ['('] rest _ := Value.scans_single (by decide) rfl
  have hall := (scans_signedName hclass rfl (stopsName_cons (.inl rfl) _)).append ((hopen _).append
    ((scans_name hproperty rfl (stopsName_cons (.inr rfl) _)).append
      ((scans_sign _).append (hvalue.append hclose))))
  obtain ⟨used, q, hscan, hused⟩ := hall .start
  rw [Token.scanFrom_nil, List.append_nil, List.append_nil] at hscan
  unfold Token.scan annotationSource
  rw [String.toList_ofList]
  unfold annotationChars
  rw [hscan]
  obtain ⟨_, _, rfl, ⟨sign, name, rfl, hsign, hadjacent, hkind, htext⟩, _, _, rfl,
    ⟨opener, rfl, hopener, -⟩, _, _, rfl, ⟨key, rfl, hkey, hkeyText⟩, _, _, rfl,
    ⟨sep, rfl, hsep⟩, used, _, rfl, hspells, closer, rfl, hcloser, -⟩ := hused
  exact .mk hsign hadjacent hkind htext hopener hkey hkeyText hsep hspells hcloser

end Docblock
