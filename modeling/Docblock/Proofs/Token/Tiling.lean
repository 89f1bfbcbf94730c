import Docblock.Proofs.Token.Scanning

/-!
# The tokens of a text tile it

The source of a token is the slice of the text between its two offsets. The sources do not overlap,
they come in order, and between them there is only padding. A token has the text of its source,
except that the text of a string is its content: the source without the quotes around it and without
the backslashes that hide a quote or a backslash.
-/

namespace Docblock

namespace Lexeme

/-- Whether a character behind these is escaped: an odd number of backslashes stands before it. -/
def IsEscaped (before : List Char) : Prop :=
  (before.reverse.takeWhile fun c => c == '\\').length % 2 = 1

/-- The content of a string: `\"` and `\\` lose their first backslash, any other backslash stays. -/
def unescape : List Char → List Char
  | [] => []
  | c :: cs =>
    match cs with
    | [] => [c]
    | d :: ds =>
      if c = '\\' ∧ (d = '"' ∨ d = '\\') then d :: unescape ds else c :: unescape (d :: ds)

/-- The source of a string token with this text. Its first and its last character are the quotes
that are not escaped. -/
structure Quotes (source text : List Char) : Prop where
  content : ∃ inner, source = '"' :: (inner ++ ['"']) ∧ text = unescape inner
  bare : ∀ before after, source = before ++ '"' :: after →
    (¬ IsEscaped before ↔ before = [] ∨ after = [])

theorem isEscaped_concat (before : List Char) (c : Char) :
    IsEscaped (before ++ [c]) ↔ c = '\\' ∧ ¬ IsEscaped before := by
  unfold IsEscaped
  rw [List.reverse_append, List.reverse_singleton, List.singleton_append]
  by_cases hslash : c = '\\'
  · rw [List.takeWhile_cons_of_pos (by simpa using hslash), List.length_cons]
    simp only [hslash, true_and]
    omega
  · rw [List.takeWhile_cons_of_neg (by simpa using hslash)]
    simp [hslash]

theorem not_isEscaped_nil : ¬ IsEscaped [] := by
  simp [IsEscaped]

/-- Behind a backslash and the character it stands before, all is as in front of both. -/
theorem not_isEscaped_hidden {before : List Char} (h : ¬ IsEscaped before) (c : Char) :
    ¬ IsEscaped (before ++ ['\\', c]) := by
  rw [← List.singleton_append, ← List.append_assoc, isEscaped_concat, isEscaped_concat]
  exact fun hescaped => hescaped.2 ⟨rfl, h⟩

theorem unescape_hidden {d : Char} (h : d = '"' ∨ d = '\\') (cs : List Char) :
    unescape ('\\' :: d :: cs) = d :: unescape cs := by
  rw [unescape]
  simp [h]

theorem unescape_plain {c : Char} {cs : List Char}
    (h : c = '\\' → ∀ d, cs.head? = some d → d ≠ '"' ∧ d ≠ '\\') :
    unescape (c :: cs) = c :: unescape cs := by
  cases cs with
  | nil => rfl
  | cons d ds =>
    have hplain : ¬ (c = '\\' ∧ (d = '"' ∨ d = '\\')) := by
      rintro ⟨hslash, hspecial⟩
      obtain ⟨hquote, hbackslash⟩ := h hslash d rfl
      exact hspecial.elim hquote hbackslash
    rw [unescape, if_neg hplain]

/-- The text of a string and its source behind the opening quote. A backslash hides a quote or a
backslash behind it and stands for itself otherwise. -/
inductive StringBody : List Char → List Char → Prop
  | closed : StringBody [] ['"']
  | hidden {d : Char} {text source : List Char} : d = '"' ∨ d = '\\' → StringBody text source →
      StringBody (d :: text) ('\\' :: d :: source)
  | plain {c : Char} {text source : List Char} : c ≠ '"' →
      (c = '\\' → ∀ d, source.head? = some d → d ≠ '"' ∧ d ≠ '\\') → StringBody text source →
      StringBody (c :: text) (c :: source)

theorem stringBody_of_stringTail {cs text source rest : List Char}
    (h : stringTail cs = some (text, source, rest)) : StringBody text source := by
  fun_induction stringTail cs generalizing text source with
  | case1 => cases h
  | case2 cs =>
    simp only [Option.some.injEq, Prod.mk.injEq] at h
    obtain ⟨rfl, rfl, -⟩ := h
    exact .closed
  | case3 => cases h
  | case4 d ds hspecial _ ih =>
    obtain ⟨⟨t, s, r⟩, htail, hsame⟩ := Option.map_eq_some_iff.1 h
    simp only [Prod.mk.injEq] at hsame
    obtain ⟨rfl, rfl, rfl⟩ := hsame
    exact .hidden (by simpa using hspecial) (ih htail)
  | case5 d ds hplain _ ih =>
    obtain ⟨⟨t, s, r⟩, htail, hsame⟩ := Option.map_eq_some_iff.1 h
    simp only [Prod.mk.injEq] at hsame
    obtain ⟨rfl, rfl, rfl⟩ := hsame
    refine .plain (by decide) ?_ (ih htail)
    -- The source goes on with the character that is no quote and no backslash.
    have happend := congrArg List.head? (stringTail_append htail)
    rintro - e he
    rw [List.head?_append, he] at happend
    obtain rfl : e = d := Option.some.inj happend
    simpa using hplain
  | case6 c cs hquote hslash ih =>
    obtain ⟨⟨t, s, r⟩, htail, hsame⟩ := Option.map_eq_some_iff.1 h
    simp only [Prod.mk.injEq] at hsame
    obtain ⟨rfl, rfl, rfl⟩ := hsame
    exact .plain hquote (fun heq => absurd heq hslash) (ih htail)

namespace StringBody

variable {text source : List Char}

/-- The text of a string is its content without the closing quote. -/
theorem content (h : StringBody text source) :
    ∃ inner, source = inner ++ ['"'] ∧ text = unescape inner := by
  induction h with
  | closed => exact ⟨[], rfl, rfl⟩
  | hidden hspecial _ ih =>
    obtain ⟨inner, rfl, rfl⟩ := ih
    exact ⟨'\\' :: _ :: inner, rfl, (unescape_hidden hspecial inner).symm⟩
  | plain _ hnext _ ih =>
    obtain ⟨inner, rfl, rfl⟩ := ih
    refine ⟨_ :: inner, rfl, (unescape_plain fun hslash d hd => hnext hslash d ?_).symm⟩
    rw [List.head?_append, hd]
    rfl

/-- Behind characters that leave the next one bare, the closing quote is the only bare quote. A
character that is neither a quote nor a backslash may also stand behind others. -/
theorem bare_iff (h : StringBody text source) {front before after : List Char}
    (hfront : IsEscaped front → ∀ c, source.head? = some c → c ≠ '"' ∧ c ≠ '\\')
    (hsplit : source = before ++ '"' :: after) : ¬ IsEscaped (front ++ before) ↔ after = [] := by
  induction h generalizing front before with
  | closed =>
    obtain ⟨rfl, rfl⟩ : before = [] ∧ after = [] := by
      cases before with
      | nil => simpa using hsplit
      | cons c before => simp at hsplit
    have hbare : ¬ IsEscaped front := fun hescaped => (hfront hescaped '"' rfl).1 rfl
    simpa using hbare
  | @hidden d text source _ hbody ih =>
    have hbare : ¬ IsEscaped front := fun hescaped => (hfront hescaped '\\' rfl).2 rfl
    have hhidden : IsEscaped (front ++ ['\\']) := (isEscaped_concat front '\\').2 ⟨rfl, hbare⟩
    obtain - | ⟨c, - | ⟨e, before⟩⟩ := before
    · simp at hsplit
    · simp only [List.cons_append, List.nil_append, List.cons.injEq] at hsplit
      obtain ⟨rfl, -, rfl⟩ := hsplit
      have hclosed : source ≠ [] := by
        obtain ⟨inner, rfl, -⟩ := hbody.content
        simp
      simp [hhidden, hclosed]
    · simp only [List.cons_append, List.cons.injEq] at hsplit
      obtain ⟨rfl, rfl, hrest⟩ := hsplit
      have hlater := ih (fun hescaped => absurd hescaped (not_isEscaped_hidden hbare d)) hrest
      rw [List.append_assoc] at hlater
      exact hlater
  | plain hquote hplain _ ih =>
    cases before with
    | nil => exact absurd (List.cons.inj hsplit).1 hquote
    | cons c before =>
      obtain ⟨rfl, hrest⟩ := List.cons.inj hsplit
      have hlater := ih (fun hescaped => hplain ((isEscaped_concat front _).1 hescaped).1) hrest
      rw [List.append_assoc] at hlater
      exact hlater

end StringBody

theorem quotes_of_stringTail {cs text source rest : List Char}
    (h : stringTail cs = some (text, source, rest)) : Quotes ('"' :: source) text := by
  have hopen : ¬ IsEscaped ['"'] := by
    rw [← List.nil_append ['"'], isEscaped_concat]
    simp
  have hbody := stringBody_of_stringTail h
  obtain ⟨inner, hsource, htext⟩ := hbody.content
  refine ⟨⟨inner, by rw [hsource], htext⟩, ?_⟩
  intro before after hsplit
  cases before with
  | nil => simp [not_isEscaped_nil]
  | cons c before =>
    obtain ⟨rfl, hrest⟩ := List.cons.inj hsplit
    have hiff := hbody.bare_iff (fun hescaped => absurd hescaped hopen) hrest
    simpa using hiff

theorem kind_name_ne_string (c : Char) (cs : List Char) : (name c cs).kind ≠ .string := by
  change nameKind _ ≠ _
  unfold nameKind
  split
  · nofun
  · split <;> nofun

/-- Only strings have another text than their source. -/
theorem text_of_read {c : Char} {cs : List Char} (h : (read c cs).kind ≠ .string) :
    (read c cs).text = (read c cs).source := by
  unfold read at h ⊢
  split at h
  case h_9 =>
    unfold string at h ⊢
    split at h
    · exact absurd rfl h
    · rfl
  case h_10 => split <;> rfl
  case h_11 =>
    split
    · rfl
    · split <;> rfl
  all_goals rfl

theorem quotes_of_read {c : Char} {cs : List Char} (h : (read c cs).kind = .string) :
    Quotes (read c cs).source (read c cs).text := by
  unfold read at h ⊢
  split at h
  case h_9 =>
    unfold string at h ⊢
    split at h
    · next htail => exact quotes_of_stringTail htail
    · cases h
  case h_10 =>
    split at h
    · exact absurd h (kind_name_ne_string _ cs)
    · cases h
  case h_11 =>
    split at h
    · obtain hkind | hkind := kind_number (c :: cs)
      · rw [hkind] at h
        cases h
      · rw [hkind] at h
        cases h
    · split at h
      · exact absurd h (kind_name_ne_string _ cs)
      · cases h
  all_goals cases h

theorem number_source_ne_nil {c : Char} {cs : List Char}
    (h : (c.isDigit || (Decimal.isSign c && startsWith Char.isDigit cs)) = true) :
    (number (c :: cs)).source ≠ [] := by
  cases hsign : Decimal.isSign c with
  | true =>
    have hfirst : sign (c :: cs) = ([c], cs) := by simp [sign, hsign]
    simp [number, hfirst]
  | false =>
    have hfirst : sign (c :: cs) = ([], c :: cs) := by simp [sign, hsign]
    have hdigit : c.isDigit = true := by simpa [hsign] using h
    simp [number, hfirst, digits, hdigit]

theorem source_read (c : Char) (cs : List Char) : ∃ source, (read c cs).source = c :: source := by
  have hwhole := read_append c cs
  have htaken : (read c cs).source ≠ [] := by
    unfold read
    split
    case h_9 =>
      unfold string
      split <;> nofun
    case h_10 => split <;> nofun
    case h_11 =>
      split
      · next hnumber => exact number_source_ne_nil hnumber
      · split <;> nofun
    all_goals nofun
  cases hsource : (read c cs).source with
  | nil => exact absurd hsource htaken
  | cons d source =>
    rw [hsource] at hwhole
    obtain rfl : d = c := (List.cons.inj hwhole).1
    exact ⟨source, rfl⟩

end Lexeme

namespace Token

def Spells (t : Token) (source : List Char) : Prop :=
  if t.kind = .string then Lexeme.Quotes source t.text.toList else t.text.toList = source

theorem spells_read (c : Char) (cs : List Char) (p : Position) (stop : Nat) :
    Spells ⟨(Lexeme.read c cs).kind, String.ofList (Lexeme.read c cs).text, p, stop⟩
      (Lexeme.read c cs).source := by
  unfold Spells
  rw [String.toList_ofList]
  split
  · next hstring => exact Lexeme.quotes_of_read hstring
  · next hother => exact Lexeme.text_of_read hother

/-- The tokens of a text that starts at a position, with padding around them. -/
inductive Tiling : Position → List Char → List Token → Prop where
  | nil {p : Position} : Tiling p [] []
  | padding {p : Position} {c : Char} {cs : List Char} {tokens : List Token} :
      Lexeme.isPadding c = true → Tiling (p.after c) cs tokens → Tiling p (c :: cs) tokens
  | token {p : Position} {t : Token} {source rest : List Char} {tokens : List Token} :
      source ≠ [] → t.Spells source → t.start = p → t.stop = (p.afterAll source).offset →
      Tiling (p.afterAll source) rest tokens → Tiling p (source ++ rest) (t :: tokens)

theorem tiling_scanFrom (p : Position) (cs : List Char) : Tiling p cs (scanFrom 0 p cs) := by
  induction hlength : cs.length using Nat.strongRecOn generalizing p cs with
  | ind n ih =>
    cases cs with
    | nil => exact .nil
    | cons c cs =>
      subst hlength
      cases hpadding : Lexeme.isPadding c with
      | true =>
        rw [scanFrom_padding hpadding]
        exact .padding hpadding (ih cs.length (by simp) _ _ rfl)
      | false =>
        obtain ⟨source, hsource⟩ := Lexeme.source_read c cs
        have hread : Lexeme.read c cs = ⟨(Lexeme.read c cs).kind, (Lexeme.read c cs).text,
            c :: source, (Lexeme.read c cs).rest⟩ := by
          rw [← hsource]
        have hwhole := Lexeme.read_append c cs
        rw [hsource] at hwhole
        have hshorter : (Lexeme.read c cs).rest.length < (c :: cs).length := by
          rw [← hwhole, List.length_append, List.length_cons]
          omega
        have hspells := spells_read c cs p (p.afterAll (c :: source)).offset
        rw [hsource] at hspells
        rw [scanFrom_lexeme hpadding hread, ← hwhole]
        exact .token (List.cons_ne_nil _ _) hspells rfl rfl (ih _ hshorter _ _ rfl)

theorem offset_after (p : Position) (c : Char) :
    (p.after c).offset = p.offset + c.utf8Size := by
  unfold Position.after
  split <;> rfl

theorem offset_afterAll (p : Position) (cs : List Char) :
    (p.afterAll cs).offset = p.offset + (String.ofList cs).utf8ByteSize := by
  induction cs generalizing p with
  | nil => simp
  | cons c cs ih =>
    have hsize : (String.ofList (c :: cs)).utf8ByteSize =
        c.utf8Size + (String.ofList cs).utf8ByteSize := by simp
    rw [Position.afterAll_cons, ih, offset_after, hsize, Nat.add_assoc]

theorem Tiling.slice {p : Position} {cs : List Char} {tokens : List Token}
    (h : Tiling p cs tokens) {t : Token} (ht : t ∈ tokens) :
    ∃ before source after, cs = before ++ (source ++ after) ∧ source ≠ [] ∧ t.Spells source ∧
      t.start = p.afterAll before ∧ t.stop = (p.afterAll (before ++ source)).offset := by
  induction h with
  | nil => cases ht
  | @padding p c cs tokens _ _ ih =>
    obtain ⟨before, source, after, rfl, hsome, hspells, hstart, hstop⟩ := ih ht
    exact ⟨c :: before, source, after, rfl, hsome, hspells, hstart, hstop⟩
  | @token p u source rest tokens hsome hspells hstart hstop _ ih =>
    obtain rfl | ht := List.mem_cons.1 ht
    · exact ⟨[], source, rest, rfl, hsome, hspells, hstart, hstop⟩
    · obtain ⟨before, others, after, rfl, hothers, hspells, hstart, hstop⟩ := ih ht
      refine ⟨source ++ before, others, after, by simp, hothers, hspells, ?_, ?_⟩
      · rw [hstart, Position.afterAll_append]
      · rw [hstop, List.append_assoc, Position.afterAll_append p]

theorem Tiling.ordered {p : Position} {cs : List Char} {tokens : List Token}
    (h : Tiling p cs tokens) : tokens.Pairwise fun t u => t.stop ≤ u.start.offset := by
  induction h with
  | nil => exact .nil
  | padding _ _ ih => exact ih
  | token _ _ _ hstop hrest ih =>
    refine .cons (fun u hu => ?_) ih
    obtain ⟨before, _, _, _, _, _, hstart, _⟩ := hrest.slice hu
    rw [hstop, hstart, offset_afterAll _ before]
    exact Nat.le_add_right _ _

theorem Tiling.covers {p : Position} {cs : List Char} {tokens : List Token}
    (h : Tiling p cs tokens) {before after : List Char} {c : Char}
    (hsplit : before ++ c :: after = cs) : Lexeme.isPadding c = true ∨
      ∃ t ∈ tokens, t.start.offset ≤ (p.afterAll before).offset ∧
        (p.afterAll before).offset < t.stop := by
  induction h generalizing before with
  | nil => simp at hsplit
  | padding hpadding _ ih =>
    cases before with
    | nil =>
      obtain ⟨rfl, -⟩ := List.cons.inj hsplit
      exact .inl hpadding
    | cons d before =>
      obtain ⟨rfl, hrest⟩ := List.cons.inj hsplit
      exact ih hrest
  | @token p t source rest tokens _ _ hstart hstop _ ih =>
    have hlater {extra : List Char} (hbefore : before = source ++ extra)
        (hrest : extra ++ c :: after = rest) : Lexeme.isPadding c = true ∨
          ∃ u ∈ t :: tokens, u.start.offset ≤ (p.afterAll before).offset ∧
            (p.afterAll before).offset < u.stop := by
      rw [hbefore, Position.afterAll_append]
      refine (ih hrest).imp_right ?_
      rintro ⟨u, hu, hcovers⟩
      exact ⟨u, List.mem_cons_of_mem t hu, hcovers⟩
    obtain ⟨extra, hsource, hextra⟩ | ⟨extra, hbefore, hrest⟩ := List.append_eq_append_iff.1 hsplit
    · cases extra with
      | nil =>
        have hbefore : before = source ++ [] := by simpa using hsource.symm
        exact hlater hbefore hextra
      | cons d extra =>
        obtain ⟨rfl, -⟩ := List.cons.inj hextra
        have hsize := c.utf8Size_pos
        refine .inr ⟨t, List.mem_cons_self, ?_, ?_⟩
        · rw [hstart, offset_afterAll]
          exact Nat.le_add_right _ _
        · rw [hstop, hsource, offset_afterAll, offset_afterAll, String.ofList_append,
            String.utf8ByteSize_append]
          have hinside : (String.ofList (c :: extra)).utf8ByteSize =
              c.utf8Size + (String.ofList extra).utf8ByteSize := by simp
          omega
    · exact hlater hbefore hrest.symm

/-- The text is tiled by the tokens and padding. Offsets count bytes. -/
structure Tiles (input : String) (tokens : List Token) : Prop where
  slices : ∀ t ∈ tokens, ∃ before source after, input.toList = before ++ (source ++ after) ∧
    source ≠ [] ∧ t.Spells source ∧ t.start.offset = (String.ofList before).utf8ByteSize ∧
    t.stop = (String.ofList (before ++ source)).utf8ByteSize
  ordered : tokens.Pairwise fun t u => t.stop ≤ u.start.offset
  covers : ∀ before c after, input.toList = before ++ c :: after → Lexeme.isPadding c = true ∨
    ∃ t ∈ tokens, t.start.offset ≤ (String.ofList before).utf8ByteSize ∧
      (String.ofList before).utf8ByteSize < t.stop

/-- Every token is a slice of the text, the slices come in order without overlapping, and every
character outside of them is padding. -/
theorem tiles_scan (input : String) : Tiles input (scan input) := by
  have htiling := tiling_scanFrom .start input.toList
  have hoffset (cs : List Char) :
      (Position.start.afterAll cs).offset = (String.ofList cs).utf8ByteSize := by
    rw [offset_afterAll]
    exact Nat.zero_add _
  refine ⟨fun t ht => ?_, htiling.ordered, fun before c after hsplit => ?_⟩
  · obtain ⟨before, source, after, hwhole, hsome, hspells, hstart, hstop⟩ := htiling.slice ht
    refine ⟨before, source, after, hwhole, hsome, hspells, ?_, ?_⟩
    · rw [hstart, hoffset]
    · rw [hstop, hoffset]
  · have hcovers := htiling.covers hsplit.symm
    rw [hoffset] at hcovers
    exact hcovers

end Token

end Docblock
