import Docblock.Proofs.Token.Tiling
import Docblock.Reading.DocText

/-!
# Scanning texts put together

Two texts are scanned one after the other if no lexeme of the first can go on into the second. The
character between them sees to names and numbers. A quote that is not closed in the first text is
the one lexeme that looks further: it becomes a string if the second text has a quote.
-/

namespace Docblock

namespace Lexeme

structure Stops (more : List Char) : Prop where
  name : StopsName more
  number : StopsNumber more
  unsigned : ∀ c, more.head? = some c → Decimal.isSign c = false

/-- No lexeme goes on with these characters, but perhaps a name that ends with a colon. -/
structure Bounds (more : List Char) : Prop where
  name : nameTail more = ([], more)
  number : StopsNumber more
  unsigned : ∀ c, more.head? = some c → Decimal.isSign c = false

variable {more : List Char}

theorem Stops.bounds (h : Stops more) : Bounds more :=
  ⟨nameTail_of_stops h.name, h.number, h.unsigned⟩

theorem isNameChar_of_isNameStart {c : Char} (h : isNameStart c = true) : isNameChar c = true := by
  unfold isNameChar
  unfold isNameStart at h
  rw [h, Bool.true_or]

theorem not_isNameStart_of_nameTail (h : nameTail more = ([], more)) (c : Char)
    (hc : more.head? = some c) : isNameStart c = false := by
  rw [← Bool.not_eq_true]
  intro hstart
  obtain ⟨rest, rfl⟩ := List.head?_eq_some_iff.1 hc
  rw [nameTail_goes (by rw [isNameChar_of_isNameStart hstart]; rfl)] at h
  cases h

theorem startsWith_before {p : Char → Bool} (h : ∀ c, more.head? = some c → p c = false)
    (cs : List Char) : startsWith p (cs ++ more) = startsWith p cs := by
  cases cs with
  | cons c cs => rfl
  | nil =>
    cases more with
    | nil => rfl
    | cons c more => exact h c rfl

theorem digits_before (h : StopsNumber more) (cs : List Char) :
    digits (cs ++ more) = ((digits cs).1, (digits cs).2 ++ more) := by
  induction cs with
  | nil => exact digits_append_rest (by simp) h
  | cons c cs ih =>
    obtain ⟨htaken, hleft⟩ := Prod.mk.inj ih
    cases hdigit : c.isDigit with
    | false => simp [digits, hdigit]
    | true =>
      simp only [digits, List.cons_append, List.takeWhile_cons, List.dropWhile_cons, hdigit,
        if_true]
      exact Prod.ext (congrArg (c :: ·) htaken) hleft

theorem sign_before (h : Bounds more) (cs : List Char) :
    sign (cs ++ more) = ((sign cs).1, (sign cs).2 ++ more) := by
  cases cs with
  | nil =>
    cases more with
    | nil => rfl
    | cons c more => simp [sign, h.unsigned c rfl]
  | cons c cs =>
    cases hsign : Decimal.isSign c <;> simp [sign, hsign]

theorem fraction_cons (c : Char) (cs : List Char) :
    fraction (c :: cs) = if c = '.' && startsWith Char.isDigit cs then
      (c :: (digits cs).1, (digits cs).2) else ([], c :: cs) := rfl

theorem fraction_before (h : Bounds more) (cs : List Char) :
    fraction (cs ++ more) = ((fraction cs).1, (fraction cs).2 ++ more) := by
  cases cs with
  | nil => exact fraction_of_stops h.number
  | cons c cs =>
    rw [List.cons_append, fraction_cons, fraction_cons,
      startsWith_before fun c hc => (h.number c hc).1, digits_before h.number]
    split <;> rfl

theorem exponent_cons (c : Char) (cs : List Char) :
    exponent (c :: cs) = if Decimal.isExponentMark c && startsWith Char.isDigit (sign cs).2 then
      (c :: ((sign cs).1 ++ (digits (sign cs).2).1), (digits (sign cs).2).2)
      else ([], c :: cs) := rfl

theorem exponent_before (h : Bounds more) (cs : List Char) :
    exponent (cs ++ more) = ((exponent cs).1, (exponent cs).2 ++ more) := by
  cases cs with
  | nil => exact exponent_of_stops h.number
  | cons c cs =>
    rw [List.cons_append, exponent_cons, exponent_cons, sign_before h]
    dsimp only
    rw [startsWith_before fun c hc => (h.number c hc).1, digits_before h.number]
    split <;> rfl

theorem number_before (h : Bounds more) (cs : List Char) :
    number (cs ++ more) = { number cs with rest := (number cs).rest ++ more } := by
  simp only [number, sign_before h, digits_before h.number, fraction_before h, exponent_before h]

/-- The text behind starts with a colon that joins another colon before it to a name. -/
def Joins (more : List Char) : Prop := ∃ ds, more = ':' :: ds ∧ startsWith isNameStart ds = true

theorem StopsName.not_joins (h : StopsName more) : ¬ Joins more := by
  rintro ⟨ds, rfl, -⟩
  exact (h ':' rfl).2.2 rfl

/-- A name ends before the text behind, unless it is joined to it. -/
theorem nameTail_before (h : nameTail more = ([], more)) (cs : List Char) :
    nameTail (cs ++ more) = ((nameTail cs).1, (nameTail cs).2 ++ more) ∨
      Joins more ∧ cs.length < (nameTail (cs ++ more)).1.length := by
  have hstart (ds : List Char) := startsWith_before (not_isNameStart_of_nameTail h) ds
  fun_induction nameTail cs with
  | case1 => exact .inl h
  | case2 c cs hgoes ih =>
    rw [List.cons_append, nameTail_goes (by rw [hstart, hgoes])]
    rcases ih with hsame | ⟨hjoins, hless⟩
    · rw [hsame]
      exact .inl rfl
    · exact .inr ⟨hjoins, Nat.succ_lt_succ hless⟩
  | case3 ds hnext _ ih =>
    rw [List.cons_append, List.cons_append, nameTail_colons, hstart, if_pos hnext]
    rcases ih with hsame | ⟨hjoins, hless⟩
    · rw [hsame]
      exact .inl rfl
    · exact .inr ⟨hjoins, Nat.succ_lt_succ (Nat.succ_lt_succ hless)⟩
  | case4 ds hnext _ =>
    rw [List.cons_append, List.cons_append, nameTail_colons, hstart, if_neg hnext]
    exact .inl rfl
  | case5 c cs hother hends =>
    rw [List.cons_append]
    by_cases hjoined : c = ':' ∧ cs = [] ∧ Joins more
    · obtain ⟨rfl, rfl, hjoins⟩ := hjoined
      obtain ⟨ds, rfl, hnext⟩ := hjoins
      rw [List.nil_append, nameTail_colons, if_pos hnext]
      exact .inr ⟨⟨ds, rfl, hnext⟩, by simp⟩
    · left
      cases cs with
      | cons d cs =>
        refine nameTail_ends (by rw [hstart]; exact hends) ?_
        rintro ds rfl hds
        obtain ⟨rfl, -⟩ := List.cons.inj hds
        exact hother cs rfl rfl
      | nil =>
        rw [List.nil_append]
        by_cases hcolon : c = ':' ∧ ∃ ds, more = ':' :: ds
        · obtain ⟨rfl, ds, rfl⟩ := hcolon
          rw [nameTail_colons, if_neg fun hnext => hjoined ⟨rfl, rfl, ds, rfl, hnext⟩]
        · refine nameTail_ends (by rw [← List.nil_append more, hstart]; exact hends) ?_
          rintro ds rfl rfl
          exact hcolon ⟨rfl, ds, rfl⟩

theorem name_before (h : nameTail more = ([], more)) (c : Char) (cs : List Char) :
    name c (cs ++ more) = { name c cs with rest := (name c cs).rest ++ more } ∨
      Joins more ∧ (c :: cs).length < (name c (cs ++ more)).source.length := by
  unfold name
  rcases nameTail_before h cs with hsame | ⟨hjoins, hless⟩
  · rw [hsame]
    exact .inl rfl
  · exact .inr ⟨hjoins, Nat.succ_lt_succ hless⟩

theorem stringTail_eq_none {cs : List Char} (h : '"' ∉ cs) : stringTail cs = none := by
  cases htail : stringTail cs with
  | none => rfl
  | some found =>
    obtain ⟨inner, hsource, -⟩ := (stringBody_of_stringTail htail).content
    have hwhole := stringTail_append htail
    rw [hsource] at hwhole
    exact absurd (by rw [← hwhole]; simp) h

/-- A string goes on into the text behind only if it is not closed before. -/
theorem stringTail_before {cs : List Char} (h : (stringTail cs).isSome = true ∨ '"' ∉ more) :
    stringTail (cs ++ more) = (stringTail cs).map fun (text, source, rest) =>
      (text, source, rest ++ more) := by
  fun_induction stringTail cs with
  | case1 => exact stringTail_eq_none (h.resolve_left Bool.false_ne_true)
  | case2 cs =>
    rw [List.cons_append, stringTail.eq_def]
    rfl
  | case3 =>
    refine stringTail_eq_none fun hquote => ?_
    obtain hfirst | hlater := List.mem_cons.1 hquote
    · cases hfirst
    · exact h.resolve_left Bool.false_ne_true hlater
  | case4 d ds hspecial _ ih =>
    rw [List.cons_append, List.cons_append, stringTail_hidden (by simpa using hspecial),
      ih (by simpa using h), Option.map_map, Option.map_map]
    rfl
  | case5 d ds hplain hslash ih =>
    rw [List.cons_append, stringTail_bare hslash fun _ =>
        ⟨d, ds ++ more, List.cons_append, by simpa using hplain⟩,
      ih (by simpa using h), Option.map_map, Option.map_map]
    rfl
  | case6 c cs hquote hslash ih =>
    rw [List.cons_append, stringTail_bare hquote fun hsame => absurd hsame hslash,
      ih (by simpa using h), Option.map_map, Option.map_map]
    rfl

def IsOpen (c : Char) (cs : List Char) : Prop := c = '"' ∧ stringTail cs = none

theorem string_before {cs : List Char} (h : IsOpen '"' cs → stringTail (cs ++ more) = none) :
    string (cs ++ more) = { string cs with rest := (string cs).rest ++ more } := by
  unfold string
  cases htail : stringTail cs with
  | none =>
    rw [h ⟨rfl, htail⟩]
    rfl
  | some found =>
    rw [stringTail_before (.inl (by rw [htail]; rfl)), htail]
    rfl

/-- The lexeme at the start of a text is the same with another text behind, unless it is a name that
is joined to that. -/
theorem read_before_or (h : Bounds more) {c : Char} {cs : List Char}
    (hopen : IsOpen c cs → stringTail (cs ++ more) = none) :
    read c (cs ++ more) = { read c cs with rest := (read c cs).rest ++ more } ∨
      Joins more ∧ (c :: cs).length < (read c (cs ++ more)).source.length := by
  have hstart := startsWith_before (not_isNameStart_of_nameTail h.name) cs
  have hdigit := startsWith_before (fun c hc => (h.number c hc).1) cs
  unfold read
  split
  case h_9 => exact .inl (string_before hopen)
  case h_10 =>
    dsimp only
    rw [hstart]
    split
    · exact name_before h.name _ cs
    · exact .inl rfl
  case h_11 =>
    dsimp only
    rw [hdigit, ← List.cons_append, number_before h]
    split
    · exact .inl rfl
    · split
      · exact name_before h.name _ cs
      · exact .inl rfl
  all_goals exact .inl rfl

theorem read_before (h : Stops more) {c : Char} {cs : List Char}
    (hopen : IsOpen c cs → stringTail (cs ++ more) = none) :
    read c (cs ++ more) = { read c cs with rest := (read c cs).rest ++ more } :=
  (read_before_or h.bounds hopen).resolve_right fun hjoined => h.name.not_joins hjoined.1

theorem read_of_isOpen {c : Char} {cs : List Char} (h : IsOpen c cs) :
    read c cs = ⟨.other, ['"'], ['"'], cs⟩ := by
  obtain ⟨rfl, htail⟩ := h
  change string cs = _
  unfold string
  rw [htail]
  rfl

end Lexeme

namespace Token

def IsOpenQuote (t : Token) : Prop := t.kind = .other ∧ t.text = "\""

instance (t : Token) : Decidable t.IsOpenQuote :=
  inferInstanceAs (Decidable (t.kind = .other ∧ t.text = "\""))

theorem scanFrom_append {p : Position} {cs more : List Char} (hstops : Lexeme.Stops more)
    (hclosed : '"' ∈ more → ∀ t ∈ scanFrom 0 p cs, ¬ t.IsOpenQuote) :
    scanFrom 0 p (cs ++ more) = scanFrom 0 p cs ++ scanFrom 0 (p.afterAll cs) more := by
  induction hlength : cs.length using Nat.strongRecOn generalizing p cs with
  | ind n ih =>
    cases cs with
    | nil => rfl
    | cons c cs =>
      subst hlength
      cases hpadding : Lexeme.isPadding c with
      | true =>
        rw [scanFrom_padding hpadding] at hclosed ⊢
        rw [List.cons_append, scanFrom_padding hpadding]
        exact ih cs.length (by simp) hclosed rfl
      | false =>
        obtain ⟨source, hsource⟩ := Lexeme.source_read c cs
        have hread : Lexeme.read c cs = ⟨(Lexeme.read c cs).kind, (Lexeme.read c cs).text,
            c :: source, (Lexeme.read c cs).rest⟩ := by
          rw [← hsource]
        have hwhole := Lexeme.read_append c cs
        rw [hsource] at hwhole
        have hshorter : (Lexeme.read c cs).rest.length < (c :: cs).length := by
          rw [← hwhole, List.length_append, List.length_cons]
          omega
        rw [scanFrom_lexeme hpadding hread] at hclosed ⊢
        have hopen : Lexeme.IsOpen c cs → Lexeme.stringTail (cs ++ more) = none := by
          intro hopen
          rw [Lexeme.stringTail_before (.inr fun hquote => ?_), hopen.2]
          · rfl
          refine hclosed hquote _ List.mem_cons_self ?_
          rw [Lexeme.read_of_isOpen hopen]
          exact ⟨rfl, rfl⟩
        have hbefore := Lexeme.read_before hstops hopen
        rw [hread] at hbefore
        have hrest := ih _ hshorter (p := p.afterAll (c :: source))
          (fun hquote t ht => hclosed hquote t (List.mem_cons_of_mem _ ht)) rfl
        rw [List.cons_append, scanFrom_lexeme hpadding hbefore, hrest, List.cons_append,
          ← Position.afterAll_append, hwhole]

/-- The frame of a doc comment has no tokens but slashes. -/
theorem slash_of_mem_scanFrom {p : Position} {cs : List Char}
    (hframe : ∀ c ∈ cs, DocText.isFrame c = true) {t : Token} (ht : t ∈ scanFrom 0 p cs) :
    t.kind = .other ∧ t.text = "/" := by
  induction cs generalizing p with
  | nil => cases ht
  | cons c cs ih =>
    have hlater := ih (p := p.after c) fun d hd => hframe d (List.mem_cons_of_mem c hd)
    have hc := hframe c List.mem_cons_self
    simp only [DocText.isFrame, Bool.or_eq_true, beq_iff_eq] at hc
    obtain (rfl | rfl) | rfl := hc
    · rw [scanFrom_padding (by decide)] at ht
      exact hlater ht
    · rw [scanFrom_padding (by decide)] at ht
      exact hlater ht
    · have hread : Lexeme.read '/' cs = ⟨.other, ['/'], ['/'], cs⟩ := rfl
      rw [scanFrom_lexeme (by decide) hread] at ht
      obtain rfl | ht := List.mem_cons.1 ht
      · exact ⟨rfl, rfl⟩
      · exact hlater ht

end Token

end Docblock
