import Docblock.Proofs.Token.Outline
import Mathlib.Logic.Relation

/-!
# Layout

Padding between two tokens keeps them apart, and nothing else depends on it. Behind a text that
ends between tokens, a text may be exchanged for another one that stops names and numbers alike and
closes strings alike: the tokens before stay as they are. With padding exchanged for padding the
tokens behind show the same glyphs as well.
-/

namespace Docblock

namespace Text

def Apart (table other : List (Nat × Nat)) : Prop :=
  ∀ r ∈ table, ∀ s ∈ other, r.2 < s.1 ∨ s.2 < r.1

instance (table other : List (Nat × Nat)) : Decidable (Apart table other) :=
  inferInstanceAs (Decidable (∀ r ∈ table, ∀ s ∈ other, r.2 < s.1 ∨ s.2 < r.1))

theorem exists_of_inRanges {table : List (Nat × Nat)} {c : Char} (h : inRanges table c = true) :
    ∃ r ∈ table, r.1 ≤ c.toNat ∧ c.toNat ≤ r.2 := by
  obtain ⟨r, hr, hc⟩ := List.any_eq_true.1 h
  exact ⟨r, hr, by simpa using hc⟩

theorem Apart.inRanges {table other : List (Nat × Nat)} (h : Apart table other) {c : Char}
    (hc : Text.inRanges table c = true) : Text.inRanges other c = false := by
  rw [← Bool.not_eq_true]
  intro hother
  obtain ⟨r, hr, hlow, hhigh⟩ := exists_of_inRanges hc
  obtain ⟨s, hs, hfrom, hto⟩ := exists_of_inRanges hother
  have hapart := h r hr s hs
  omega

end Text

namespace Lexeme

theorem code_of_isBlank {c : Char} (h : Text.isBlank c = true) (hascii : Text.isAscii c = true) :
    c.toNat ≤ 32 := by
  have hcode : c.toNat < 0x80 := of_decide_eq_true hascii
  simp only [Text.isBlank, Text.blankRanges, Text.inRanges_cons, Text.inRanges_nil, Bool.or_false,
    Bool.or_eq_true, Bool.and_eq_true, decide_eq_true_eq] at h
  omega

theorem isNameChar_of_isBlank {c : Char} (h : Text.isBlank c = true) : isNameChar c = false := by
  have hline : c ≠ '_' := by
    rintro rfl
    exact absurd h (by decide)
  have hletters : Text.Apart Text.blankRanges Text.letterRanges := by decide +kernel
  have hnumerals : Text.Apart Text.blankRanges Text.numeralRanges := by decide +kernel
  unfold isNameChar Text.isLetter Text.isNumeral
  rw [beq_false_of_ne hline, Bool.false_or]
  cases hascii : Text.isAscii c with
  | false => simp [hletters.inRanges h, hnumerals.inRanges h]
  | true =>
    have hcode := code_of_isBlank h hascii
    have halpha : c.isAlpha = false := by
      rw [← Bool.not_eq_true]
      intro halpha
      have hletter := code_of_isAlpha halpha
      omega
    have hdigit : c.isDigit = false := by
      rw [← Bool.not_eq_true]
      intro hdigit
      have hnumeral := code_of_isDigit hdigit
      omega
    simp [halpha, hdigit]

theorem isNameChar_of_isPadding {c : Char} (h : isPadding c = true) : isNameChar c = false := by
  obtain hblank | hstar := (Bool.or_eq_true _ _).mp h
  · exact isNameChar_of_isBlank hblank
  · obtain rfl := eq_of_beq hstar
    decide

theorem ne_of_isPadding {c d : Char} (h : isPadding c = true) (hd : isPadding d = false) :
    c ≠ d := by
  rintro rfl
  rw [h] at hd
  cases hd

theorem stops_of_isPadding {more : List Char} (h : ∀ c, more.head? = some c → isPadding c = true) :
    Stops more := by
  constructor
  · intro c hc
    have hpadding := h c hc
    exact ⟨isNameChar_of_isPadding hpadding, ne_of_isPadding hpadding (by decide),
      ne_of_isPadding hpadding (by decide)⟩
  · intro c hc
    have hpadding := h c hc
    refine ⟨?_, ne_of_isPadding hpadding (by decide), ?_⟩
    · rw [← Bool.not_eq_true]
      intro hdigit
      rw [isPadding_of_isDigit hdigit] at hpadding
      cases hpadding
    · simp [Decimal.isExponentMark, ne_of_isPadding (d := 'e') hpadding (by decide),
        ne_of_isPadding (d := 'E') hpadding (by decide)]
  · intro c hc
    have hpadding := h c hc
    simp [Decimal.isSign, ne_of_isPadding (d := '+') hpadding (by decide),
      ne_of_isPadding (d := '-') hpadding (by decide)]

/-- A string ends where its source ends, whatever is behind. -/
theorem StringBody.stringTail {text source : List Char} (h : StringBody text source)
    (rest : List Char) : stringTail (source ++ rest) = some (text, source, rest) := by
  induction h with
  | closed =>
    rw [stringTail.eq_def]
    rfl
  | hidden hspecial _ ih =>
    rw [List.cons_append, List.cons_append, stringTail_hidden hspecial, ih]
    rfl
  | @plain c text source hquote hnext hbody ih =>
    rw [List.cons_append, stringTail_bare hquote, ih]
    · rfl
    intro hslash
    obtain ⟨inner, hsource, -⟩ := hbody.content
    cases source with
    | nil => simp at hsource
    | cons d ds =>
      obtain ⟨hplain, hother⟩ := hnext hslash d rfl
      exact ⟨d, ds ++ rest, rfl, not_or.2 ⟨hplain, hother⟩⟩

def StartsPlain (more : List Char) : Prop := ∀ c, more.head? = some c → c ≠ '"' ∧ c ≠ '\\'

/-- A string that is still open is closed by what is behind. -/
theorem stringTail_behind {cs more : List Char} (h : stringTail cs = none)
    (hmore : StartsPlain more) : stringTail (cs ++ more) = none ↔ stringTail more = none := by
  fun_induction stringTail cs with
  | case1 => exact Iff.rfl
  | case2 => cases h
  | case3 =>
    cases more with
    | nil => exact Iff.rfl
    | cons d ds =>
      have hplain : ¬ (d = '"' ∨ d = '\\') := not_or.2 (hmore d rfl)
      rw [List.singleton_append, stringTail_bare (by decide) fun _ => ⟨d, ds, rfl, hplain⟩,
        Option.map_eq_none_iff]
  | case4 d ds hspecial _ ih =>
    rw [List.cons_append, List.cons_append, stringTail_hidden (by simpa using hspecial),
      Option.map_eq_none_iff]
    exact ih (Option.map_eq_none_iff.1 h)
  | case5 d ds hplain hslash ih =>
    rw [List.cons_append, stringTail_bare hslash fun _ =>
      ⟨d, ds ++ more, List.cons_append, by simpa using hplain⟩, Option.map_eq_none_iff]
    exact ih (Option.map_eq_none_iff.1 h)
  | case6 c cs hquote hslash ih =>
    rw [List.cons_append, stringTail_bare hquote fun hsame => absurd hsame hslash,
      Option.map_eq_none_iff]
    exact ih (Option.map_eq_none_iff.1 h)

theorem stringTail_padding {gap : List Char} (hgap : ∀ c ∈ gap, isPadding c = true)
    (after : List Char) : stringTail (gap ++ after) = none ↔ stringTail after = none := by
  induction gap with
  | nil => exact Iff.rfl
  | cons c gap ih =>
    have hpadding := hgap c List.mem_cons_self
    have hslash : c ≠ '\\' := ne_of_isPadding hpadding (by decide)
    rw [List.cons_append, stringTail_bare (ne_of_isPadding hpadding (by decide)) fun hsame =>
      absurd hsame hslash, Option.map_eq_none_iff]
    exact ih fun d hd => hgap d (List.mem_cons_of_mem c hd)

/-- Texts that the lexemes of a text in front of them do not tell apart, unless they go on into
them. -/
structure Exchangeable (more other : List Char) : Prop where
  first : Bounds more
  second : Bounds other
  separate : ¬ Joins other
  plain : StartsPlain more ∧ StartsPlain other
  closes : stringTail more = none ↔ stringTail other = none

theorem exchangeable_padding {gap other : List Char} (hgap : ∀ c ∈ gap, isPadding c = true)
    (hother : ∀ c ∈ other, isPadding c = true) (hsome : gap ≠ []) (hothers : other ≠ [])
    (after : List Char) : Exchangeable (gap ++ after) (other ++ after) := by
  have hhead {gap : List Char} (hgap : ∀ c ∈ gap, isPadding c = true) (hsome : gap ≠ []) (c : Char)
      (hc : (gap ++ after).head? = some c) : isPadding c = true := by
    cases gap with
    | nil => exact absurd rfl hsome
    | cons d gap =>
      obtain rfl : d = c := Option.some.inj hc
      exact hgap d List.mem_cons_self
  have hplain {more : List Char} (h : ∀ c, more.head? = some c → isPadding c = true) :
      StartsPlain more := fun c hc =>
    ⟨ne_of_isPadding (h c hc) (by decide), ne_of_isPadding (h c hc) (by decide)⟩
  have hstops := stops_of_isPadding (hhead hother hothers)
  refine ⟨(stops_of_isPadding (hhead hgap hsome)).bounds, hstops.bounds, hstops.name.not_joins,
    ⟨hplain (hhead hgap hsome), hplain (hhead hother hothers)⟩, ?_⟩
  rw [stringTail_padding hgap, stringTail_padding hother]

end Lexeme

namespace Token

theorem offset_lt_afterAll (p : Position) {cs : List Char} (h : cs ≠ []) :
    p.offset < (p.afterAll cs).offset := by
  cases cs with
  | nil => exact absurd rfl h
  | cons c cs =>
    have hsize := c.utf8Size_pos
    rw [Position.afterAll_cons, offset_afterAll, offset_after]
    omega

/-- The tokens of a text that starts at `p` and goes on with `more` do not reach into it. -/
def EndsBefore (p : Position) (before more : List Char) : Prop :=
  ∀ t ∈ scanFrom 0 p (before ++ more), t.start.offset < (p.afterAll before).offset →
    t.stop ≤ (p.afterAll before).offset

/-- A quote that is not closed in a text is not closed behind it by a token that ends before. -/
theorem stringTail_of_endsBefore {p : Position} {c : Char} {cs more : List Char}
    (hopen : Lexeme.IsOpen c cs) (hends : EndsBefore p (c :: cs) more) :
    Lexeme.stringTail (cs ++ more) = none := by
  obtain ⟨rfl, hnone⟩ := hopen
  cases htail : Lexeme.stringTail (cs ++ more) with
  | none => rfl
  | some found =>
    obtain ⟨text, source, rest⟩ := found
    have hread : Lexeme.read '"' (cs ++ more) = ⟨.string, text, '"' :: source, rest⟩ := by
      change Lexeme.string (cs ++ more) = _
      unfold Lexeme.string
      rw [htail]
    have hfirst : ⟨.string, String.ofList text, p, (p.afterAll ('"' :: source)).offset⟩ ∈
        scanFrom 0 p ('"' :: cs ++ more) := by
      rw [List.cons_append, scanFrom_lexeme (by decide) hread]
      exact List.mem_cons_self
    have hstop := hends _ hfirst (offset_lt_afterAll p (List.cons_ne_nil _ _))
    have hbody := Lexeme.stringBody_of_stringTail htail
    have hwhole := Lexeme.stringTail_append htail
    obtain ⟨extra, rfl, -⟩ | ⟨extra, hsource, -⟩ := List.append_eq_append_iff.1 hwhole
    · rw [hbody.stringTail] at hnone
      cases hnone
    · cases extra with
      | nil =>
        have hclosed := hbody.stringTail []
        rw [hsource, List.append_nil, List.append_nil, hnone] at hclosed
        cases hclosed
      | cons d extra =>
        have hbehind := offset_lt_afterAll (p.afterAll ('"' :: cs)) (List.cons_ne_nil d extra)
        rw [hsource, ← List.cons_append, Position.afterAll_append] at hstop
        exact absurd hstop (Nat.not_le_of_lt hbehind)

/-- The first lexeme of a text ends in it if its tokens do. -/
theorem not_longer_of_endsBefore {p : Position} {c : Char} {cs more : List Char}
    (hpadding : Lexeme.isPadding c = false) (hends : EndsBefore p (c :: cs) more) :
    ¬ (c :: cs).length < (Lexeme.read c (cs ++ more)).source.length := by
  intro hlonger
  obtain ⟨source, hsource⟩ := Lexeme.source_read c (cs ++ more)
  have hwhole := Lexeme.read_append c (cs ++ more)
  have hread : Lexeme.read c (cs ++ more) = ⟨(Lexeme.read c (cs ++ more)).kind,
      (Lexeme.read c (cs ++ more)).text, c :: source, (Lexeme.read c (cs ++ more)).rest⟩ := by
    rw [← hsource]
  rw [hsource] at hwhole hlonger
  have hstop := hends _ (by
    rw [List.cons_append, scanFrom_lexeme hpadding hread]
    exact List.mem_cons_self) (offset_lt_afterAll p (List.cons_ne_nil _ _))
  have htaken : c :: source <+: c :: cs ++ more := ⟨_, hwhole⟩
  obtain ⟨extra, hextra⟩ := List.prefix_of_prefix_length_le (List.prefix_append _ _) htaken
    (Nat.le_of_lt hlonger)
  have hsome : extra ≠ [] := by
    rintro rfl
    rw [← hextra, List.append_nil] at hlonger
    exact Nat.lt_irrefl _ hlonger
  rw [← hextra, Position.afterAll_append] at hstop
  exact absurd hstop (Nat.not_le_of_lt (offset_lt_afterAll _ hsome))

/-- The tokens of a text stay when what is behind it is exchanged. -/
theorem scanFrom_exchange {p : Position} {before more other : List Char}
    (h : Lexeme.Exchangeable more other) (hends : EndsBefore p before more) :
    ∃ ts, scanFrom 0 p (before ++ more) = ts ++ scanFrom 0 (p.afterAll before) more ∧
      scanFrom 0 p (before ++ other) = ts ++ scanFrom 0 (p.afterAll before) other ∧
      ∀ t ∈ ts, t.stop ≤ (p.afterAll before).offset := by
  induction hlength : before.length using Nat.strongRecOn generalizing p before with
  | ind n ih =>
    cases before with
    | nil => exact ⟨[], rfl, rfl, nofun⟩
    | cons c cs =>
      subst hlength
      cases hpadding : Lexeme.isPadding c with
      | true =>
        unfold EndsBefore at hends
        rw [List.cons_append, scanFrom_padding hpadding] at hends ⊢
        rw [List.cons_append, scanFrom_padding hpadding]
        exact ih cs.length (by simp) hends rfl
      | false =>
        have hopen (hopen : Lexeme.IsOpen c cs) := stringTail_of_endsBefore hopen hends
        have hother : Lexeme.IsOpen c cs → Lexeme.stringTail (cs ++ other) = none := by
          intro hquote
          have hnone := hopen hquote
          rw [Lexeme.stringTail_behind hquote.2 h.plain.1, h.closes] at hnone
          rwa [Lexeme.stringTail_behind hquote.2 h.plain.2]
        have hbefore := (Lexeme.read_before_or h.first hopen).resolve_right fun hjoined =>
          not_longer_of_endsBefore hpadding hends hjoined.2
        have hothers := (Lexeme.read_before_or h.second hother).resolve_right fun hjoined =>
          h.separate hjoined.1
        obtain ⟨source, hsource⟩ := Lexeme.source_read c cs
        have hwhole := Lexeme.read_append c cs
        generalize Lexeme.read c cs = lexeme at hbefore hothers hwhole hsource
        obtain ⟨kind, text, taken, rest⟩ := lexeme
        obtain rfl : taken = c :: source := hsource
        dsimp only at hbefore hothers hwhole
        have hshorter : rest.length < (c :: cs).length := by
          rw [← hwhole, List.length_append, List.length_cons]
          omega
        unfold EndsBefore at hends
        rw [List.cons_append, scanFrom_lexeme hpadding hbefore, ← hwhole,
          Position.afterAll_append] at hends
        obtain ⟨ts, hfirst, hsecond, hstops⟩ := ih _ hshorter (p := p.afterAll (c :: source))
          (fun t ht => hends t (List.mem_cons_of_mem _ ht)) rfl
        rw [List.cons_append, scanFrom_lexeme hpadding hbefore, hfirst, List.cons_append,
          scanFrom_lexeme hpadding hothers, hsecond, ← hwhole, Position.afterAll_append]
        refine ⟨_ :: ts, rfl, rfl, ?_⟩
        rintro t ht
        obtain rfl | ht := List.mem_cons.1 ht
        · rw [offset_afterAll _ rest]
          exact Nat.le_add_right _ _
        · exact hstops t ht

inductive Refilled : String → String → Prop where
  | gap {before gap other after : String} {ts us : List Token} {t u : Token} :
      scan (before ++ gap ++ after) = ts ++ t :: u :: us → t.stop = before.utf8ByteSize →
      u.start.offset = (before ++ gap).utf8ByteSize → gap ≠ "" → other ≠ "" →
      (∀ c ∈ other.toList, Lexeme.isPadding c = true) →
      Refilled (before ++ gap ++ after) (before ++ other ++ after)

/-- Gaps between tokens are filled with other padding, one after the other. -/
abbrev Relaid : String → String → Prop := Relation.ReflTransGen Refilled

theorem bounds_of_mem_scan {input : String} {v : Token} (hv : v ∈ scan input) :
    v.start.offset < v.stop ∧ v.stop ≤ input.utf8ByteSize := by
  obtain ⟨before, source, after, hinput, hsome, -, hstart, hstop⟩ :=
    (tiles_scan input).slices v hv
  have hsize : 0 < (String.ofList source).utf8ByteSize := by
    refine Nat.pos_of_ne_zero fun hzero => hsome ?_
    rw [← String.toList_ofList (l := source), String.utf8ByteSize_eq_zero_iff.1 hzero]
    rfl
  rw [hstart, hstop, ← String.ofList_toList (s := input), hinput, String.ofList_append,
    String.ofList_append, String.ofList_append, String.utf8ByteSize_append,
    String.utf8ByteSize_append, String.utf8ByteSize_append]
  omega

section Gap

variable {input : String} {ts us : List Token} {t u : Token}
  (h : scan input = ts ++ t :: u :: us)

include h

/-- A token is one of those up to the first of two neighbours or from the second on. -/
theorem outside_gap {v : Token} (hv : v ∈ scan input) :
    v.stop ≤ t.stop ∨ u.start.offset ≤ v.start.offset := by
  have hordered := (tiles_scan input).ordered
  have hfirst : t.start.offset < t.stop := (bounds_of_mem_scan (by rw [h]; simp)).1
  have hsecond : u.start.offset < u.stop := (bounds_of_mem_scan (by rw [h]; simp)).1
  rw [h] at hordered hv
  obtain ⟨-, hlater, hearlier⟩ := List.pairwise_append.1 hordered
  rw [List.mem_append, List.mem_cons, List.mem_cons] at hv
  obtain hts | rfl | rfl | hus := hv
  · exact .inl (Nat.le_trans (hearlier v hts t List.mem_cons_self) (Nat.le_of_lt hfirst))
  · exact .inl (Nat.le_refl _)
  · exact .inr (Nat.le_refl _)
  · have hbehind := List.rel_of_pairwise_cons (List.Pairwise.of_cons hlater) hus
    exact .inr (Nat.le_trans (Nat.le_of_lt hsecond) hbehind)

/-- Between two neighbours there is only padding. -/
theorem isPadding_of_gap {before gap after : String} (hinput : input = before ++ gap ++ after)
    (hstop : t.stop = before.utf8ByteSize)
    (hstart : u.start.offset = (before ++ gap).utf8ByteSize) :
    ∀ c ∈ gap.toList, Lexeme.isPadding c = true := by
  intro c hc
  obtain ⟨front, back, hgap⟩ := List.append_of_mem hc
  have hsplit : input.toList = (before.toList ++ front) ++ c :: (back ++ after.toList) := by
    rw [hinput, String.toList_append, String.toList_append, hgap]
    simp
  obtain hpadding | ⟨v, hv, hfrom, hto⟩ := (tiles_scan input).covers _ c _ hsplit
  · exact hpadding
  · have hsize := c.utf8Size_pos
    have hbytes : gap.utf8ByteSize =
        (String.ofList front).utf8ByteSize + (c.utf8Size + (String.ofList back).utf8ByteSize) := by
      rw [← String.ofList_toList (s := gap), hgap, String.ofList_append, String.utf8ByteSize_append]
      simp
    rw [String.ofList_append, String.utf8ByteSize_append, String.ofList_toList] at hfrom hto
    rw [String.utf8ByteSize_append] at hstart
    rcases outside_gap h hv with houtside | houtside <;> omega

theorem endsBefore_of_gap {before gap after : String} (hinput : input = before ++ gap ++ after)
    (hstop : t.stop = before.utf8ByteSize)
    (hstart : u.start.offset = (before ++ gap).utf8ByteSize) :
    EndsBefore .start before.toList (gap ++ after).toList := by
  intro v hv hfrom
  have hoffset : (Position.start.afterAll before.toList).offset = before.utf8ByteSize := by
    rw [offset_afterAll, String.ofList_toList]
    exact Nat.zero_add _
  have hmem : v ∈ scan input := by
    rw [hinput, String.append_assoc]
    unfold scan
    rw [String.toList_append]
    exact hv
  rw [hoffset] at hfrom ⊢
  rw [String.utf8ByteSize_append] at hstart
  rcases outside_gap h hmem with houtside | houtside <;> omega

end Gap

end Token

namespace Glyph

/-- Padding in front of a text has no glyphs. -/
theorem ofText_padding {gap : List Char} (hgap : ∀ c ∈ gap, Lexeme.isPadding c = true)
    (after : List Char) : ofText (gap ++ after) = ofText after := by
  induction gap with
  | nil => rfl
  | cons c gap ih =>
    unfold ofText
    rw [List.cons_append, ofTokens_scanFrom_behind (hgap c List.mem_cons_self) (by simp)]
    exact ih fun d hd => hgap d (List.mem_cons_of_mem c hd)

/-- Behind a gap the glyphs of a text are those that it has alone. -/
theorem ofTokens_gap {before : Option Token} {p : Position} {gap : List Char}
    (hgap : ∀ c ∈ gap, Lexeme.isPadding c = true) (hsome : gap ≠ [])
    (h : ∀ t ∈ before, t.stop ≤ p.offset) (after : List Char) :
    ofTokens before (Token.scanFrom 0 p (gap ++ after)) = ofText after := by
  cases gap with
  | nil => exact absurd rfl hsome
  | cons c gap =>
    rw [List.cons_append, ofTokens_scanFrom_behind (hgap c List.mem_cons_self) h]
    exact ofText_padding (fun d hd => hgap d (List.mem_cons_of_mem c hd)) after

end Glyph

namespace Token

/-- A text with a gap filled in another way has the same glyphs. -/
theorem Refilled.ofText_eq {b c : String} (h : Refilled b c) :
    Glyph.ofText b.toList = Glyph.ofText c.toList := by
  obtain ⟨hscan, hstop, hstart, hsome, hothers, hother⟩ := h
  rename_i before gap other after ts us t u
  have hgap := isPadding_of_gap hscan rfl hstop hstart
  have hends := endsBefore_of_gap hscan rfl hstop hstart
  have hfirst : gap.toList ≠ [] := by simpa using hsome
  have hsecond : other.toList ≠ [] := by simpa using hothers
  have hexchange := Lexeme.exchangeable_padding hgap hother hfirst hsecond after.toList
  rw [String.toList_append] at hends
  obtain ⟨ts, hbefore, hafter, hstops⟩ := scanFrom_exchange hexchange hends
  have hlast : ∀ t ∈ ts.getLast?.or none,
      t.stop ≤ (Position.start.afterAll before.toList).offset := by
    intro t ht
    rw [Option.or_none] at ht
    exact hstops t (List.mem_of_getLast? ht)
  unfold Glyph.ofText
  rw [String.append_assoc, String.append_assoc, String.toList_append, String.toList_append,
    String.toList_append, String.toList_append, hbefore, hafter, Glyph.ofTokens_append,
    Glyph.ofTokens_append, Glyph.ofTokens_gap hgap hfirst hlast,
    Glyph.ofTokens_gap hother hsecond hlast]

theorem Relaid.ofText_eq {b c : String} (h : Relaid b c) :
    Glyph.ofText b.toList = Glyph.ofText c.toList := by
  induction h with
  | refl => rfl
  | tail _ hstep ih => exact ih.trans hstep.ofText_eq

end Token

end Docblock
