import Docblock.Proofs.Token.Exchanged
import Docblock.Proofs.Token.Paths

/-!
# Exchanging a name in a text

A name in a text is a token. It stands behind a sign or where a value or a key may start, so that
nothing before it goes on into it, whatever it is exchanged for. If it is exchanged for a name then
the tokens before it and behind it stay as they are.
-/

namespace Docblock

namespace TokenKind

def leads (kind : TokenKind) : Bool := kind == atSign || kind.startsValue

def opened (ts : List Token) : List TokenKind := ts.foldl (fun opened t => t.kind.enclose opened) []

end TokenKind

namespace Exchange

theorem Takes.leads {x : Exchange} {before next : Option TokenKind} {opened : List TokenKind}
    {kind : TokenKind} {text other : String} (h : x.Takes before opened next kind text other) :
    before.any TokenKind.leads = true := by
  cases h with
  | name hbefore _ _ =>
    rw [hbefore]
    rfl
  | constant hbefore _ _ _ =>
    obtain ⟨kind, hkind, hvalue⟩ := (Option.any_eq_true _ _).1 hbefore
    exact (Option.any_eq_true _ _).2 ⟨kind, hkind, Bool.or_eq_true_iff.2 (.inr hvalue)⟩

def Qualifies (x : Exchange) : Prop := ∀ text other, x.Swaps text other →
  (∃ c cs, text.toList = c :: cs ∧ Lexeme.IsName c cs) ∧
    ∃ cs, other.toList = '\\' :: cs ∧ Lexeme.IsName '\\' cs

end Exchange

namespace Lexeme

def leaders : List Char := ['@', '(', '{', ',', ':', '=']

theorem read_leader {c : Char} {cs : List Char} (h : (read c cs).kind.leads = true) :
    c ∈ leaders ∧ ∀ ds, read c ds = single (read c cs).kind c ds := by
  unfold read at h ⊢
  split at h
  case h_3 | h_5 => cases h
  case h_9 =>
    unfold string at h
    split at h <;> cases h
  case h_10 =>
    split at h
    · have hpart : (nameKind ('\\' :: (nameTail cs).1)).leads = true := h
      have hclass := isClassPart_nameKind ('\\' :: (nameTail cs).1)
      generalize nameKind ('\\' :: (nameTail cs).1) = kind at hpart hclass
      cases kind <;> cases hpart <;> cases hclass
    · cases h
  case h_11 =>
    split at h
    · obtain hkind | hkind := kind_number (c :: cs)
      · rw [hkind] at h
        cases h
      · rw [hkind] at h
        cases h
    · split at h
      · have hpart : (nameKind (c :: (nameTail cs).1)).leads = true := h
        have hclass := isClassPart_nameKind (c :: (nameTail cs).1)
        generalize nameKind (c :: (nameTail cs).1) = kind at hpart hclass
        cases kind <;> cases hpart <;> cases hclass
      · cases h
  all_goals exact ⟨by decide, fun _ => rfl⟩

variable {p : Char} {gap : List Char}

/-- No name, number or string starts with a leader or goes on with one. -/
theorem plain_of_mem_leaders (hp : p ∈ leaders) : (p ≠ '"' ∧ p ≠ '\\') ∧ isNameChar p = false ∧
    p.isDigit = false ∧ p ≠ '.' ∧ Decimal.isExponentMark p = false ∧ Decimal.isSign p = false := by
  unfold leaders at hp
  simp only [List.mem_cons, List.not_mem_nil, or_false] at hp
  rcases hp with rfl | rfl | rfl | rfl | rfl | rfl <;> decide

theorem bounds_leader (hp : p ∈ leaders) (hgap : ∀ c ∈ gap, isPadding c = true) {more : List Char}
    (hmore : more.head? ≠ some ':') : Bounds (p :: (gap ++ more)) := by
  obtain ⟨⟨-, hslash⟩, hchar, hdigit, hpoint, hmark, hsign⟩ := plain_of_mem_leaders hp
  refine ⟨nameTail_ends (by simp [hchar, hslash]) ?_, ?_, ?_⟩
  · rintro ds - hds
    cases gap with
    | nil => exact hmore (by rw [← List.nil_append more, hds]; rfl)
    | cons c gap =>
      obtain ⟨rfl, -⟩ := List.cons.inj hds
      exact absurd (hgap ':' List.mem_cons_self) (by decide)
  · rintro _ ⟨⟩
    exact ⟨hdigit, hpoint, hmark⟩
  · rintro _ ⟨⟩
    exact hsign

theorem not_joins_leader (hgap : ∀ c ∈ gap, isPadding c = true) (more : List Char) :
    ¬ Joins (p :: (gap ++ '\\' :: more)) := by
  rintro ⟨ds, hds, hstart⟩
  obtain ⟨-, rfl⟩ := List.cons.inj hds
  cases gap with
  | nil =>
    have hslash : isNameStart '\\' = true := hstart
    exact absurd hslash (by decide)
  | cons c gap =>
    have hchar := isNameChar_of_isPadding (hgap c List.mem_cons_self)
    rw [isNameChar_of_isNameStart hstart] at hchar
    cases hchar

theorem startsPlain_leader (hp : p ∈ leaders) (more : List Char) : StartsPlain (p :: more) := by
  rintro _ ⟨⟩
  exact (plain_of_mem_leaders hp).1

theorem IsName.head_ne_colon {c : Char} {cs : List Char} (h : IsName c cs) : c ≠ ':' := by
  rintro rfl
  rcases h.first with hstart | ⟨hslash, -⟩
  · exact absurd hstart (by decide)
  · cases hslash

theorem IsName.stringTail {c : Char} {cs : List Char} (h : IsName c cs) (rest : List Char) :
    stringTail (c :: cs ++ rest) = none ↔ stringTail rest = none := by
  refine stringTail_of_isNameTail ?_ rest
  rcases h.first with hstart | ⟨rfl, hstart⟩
  · have htail := h.tail
    unfold IsNameTail at htail ⊢
    rw [nameTail_goes (by rw [isNameChar_of_isNameStart hstart]; rfl), htail]
  · exact h.tail.separated hstart

/-- Names may be exchanged behind a leader. -/
theorem exchangeable_names (hp : p ∈ leaders) (hgap : ∀ c ∈ gap, isPadding c = true) {c : Char}
    {cs ds : List Char} (hname : IsName c cs) (hother : IsName '\\' ds) (after : List Char) :
    Exchangeable (p :: (gap ++ (c :: cs ++ after))) (p :: (gap ++ ('\\' :: ds ++ after))) := by
  have hcolon := hname.head_ne_colon
  obtain ⟨hquote, -⟩ := plain_of_mem_leaders hp
  have hopen (more : List Char) : stringTail (p :: (gap ++ more)) = none ↔
      stringTail more = none := by
    rw [stringTail_bare hquote.1 fun hsame => absurd hsame hquote.2, Option.map_eq_none_iff,
      stringTail_padding hgap]
  refine ⟨bounds_leader hp hgap (by simpa using hcolon), bounds_leader hp hgap (by simp),
    not_joins_leader hgap _, ⟨startsPlain_leader hp _, startsPlain_leader hp _⟩, ?_⟩
  rw [hopen, hopen, hname.stringTail, hother.stringTail]

end Lexeme

namespace Token

theorem token_of_scanFrom {p : Position} {c : Char} {cs : List Char} {t : Token} {us : List Token}
    (hpadding : Lexeme.isPadding c = false) (h : scanFrom 0 p (c :: cs) = t :: us) :
    t = ⟨(Lexeme.read c cs).kind, String.ofList (Lexeme.read c cs).text, p,
        (p.afterAll (Lexeme.read c cs).source).offset⟩ ∧
      us = scanFrom 0 (p.afterAll (Lexeme.read c cs).source) (Lexeme.read c cs).rest := by
  obtain ⟨source, hsource⟩ := Lexeme.source_read c cs
  have hread : Lexeme.read c cs = ⟨(Lexeme.read c cs).kind, (Lexeme.read c cs).text, c :: source,
      (Lexeme.read c cs).rest⟩ := by
    rw [← hsource]
  rw [scanFrom_lexeme hpadding hread, ← hsource] at h
  obtain ⟨rfl, rfl⟩ := List.cons.inj h
  exact ⟨rfl, rfl⟩

theorem exists_of_scanFrom_cons {p : Position} {cs : List Char} {t : Token} {us : List Token}
    (h : scanFrom 0 p cs = t :: us) : ∃ gap c more, cs = gap ++ c :: more ∧
      (∀ d ∈ gap, Lexeme.isPadding d = true) ∧ Lexeme.isPadding c = false ∧
      t = ⟨(Lexeme.read c more).kind, String.ofList (Lexeme.read c more).text, p.afterAll gap,
        ((p.afterAll gap).afterAll (Lexeme.read c more).source).offset⟩ ∧
      us = scanFrom 0 ((p.afterAll gap).afterAll (Lexeme.read c more).source)
        (Lexeme.read c more).rest := by
  induction cs generalizing p with
  | nil => cases h
  | cons c cs ih =>
    cases hpadding : Lexeme.isPadding c with
    | true =>
      rw [scanFrom_padding hpadding] at h
      obtain ⟨gap, d, more, rfl, hgap, hd, ht, hus⟩ := ih h
      refine ⟨c :: gap, d, more, rfl, fun e he => ?_, hd, ht, hus⟩
      rcases List.mem_cons.1 he with rfl | he
      · exact hpadding
      · exact hgap e he
    | false =>
      obtain ⟨ht, hus⟩ := token_of_scanFrom hpadding h
      exact ⟨[], c, cs, rfl, nofun, hpadding, ht, hus⟩

theorem scanFrom_gap {p : Position} {gap : List Char} (hgap : ∀ c ∈ gap, Lexeme.isPadding c = true)
    (more : List Char) : scanFrom 0 p (gap ++ more) = scanFrom 0 (p.afterAll gap) more := by
  induction gap generalizing p with
  | nil => rfl
  | cons c gap ih =>
    rw [List.cons_append, scanFrom_padding (hgap c List.mem_cons_self)]
    exact ih fun d hd => hgap d (List.mem_cons_of_mem c hd)

/-- A token among others starts a text of its own, and the tokens before it end before that. -/
theorem exists_of_scanFrom_append {p : Position} {cs : List Char} {ts us : List Token} {t : Token}
    (h : scanFrom 0 p cs = ts ++ t :: us) : ∃ before c more, cs = before ++ c :: more ∧
      Lexeme.isPadding c = false ∧ scanFrom 0 (p.afterAll before) (c :: more) = t :: us ∧
      EndsBefore p before (c :: more) := by
  induction ts generalizing p cs with
  | nil =>
    obtain ⟨gap, c, more, rfl, hgap, hc, -, -⟩ := exists_of_scanFrom_cons h
    rw [List.nil_append, scanFrom_gap hgap] at h
    refine ⟨gap, c, more, rfl, hc, h, fun v hv hbefore => ?_⟩
    rw [scanFrom_gap hgap] at hv
    have hbehind := start_of_mem_scanFrom hv
    omega
  | cons s ts ih =>
    rw [List.cons_append] at h
    obtain ⟨gap, c, more, rfl, hgap, hc, hs, hrest⟩ := exists_of_scanFrom_cons h
    obtain ⟨before, d, later, hsplit, hd, hnext, hends⟩ := ih hrest.symm
    have hwhole := Lexeme.read_append c more
    rw [hsplit] at hwhole hrest
    have hposition : p.afterAll (gap ++ ((Lexeme.read c more).source ++ before)) =
        ((p.afterAll gap).afterAll (Lexeme.read c more).source).afterAll before := by
      rw [Position.afterAll_append, Position.afterAll_append]
    have htext : gap ++ ((Lexeme.read c more).source ++ before) ++ d :: later =
        gap ++ c :: more := by
      rw [List.append_assoc, List.append_assoc, hwhole]
    refine ⟨gap ++ ((Lexeme.read c more).source ++ before), d, later, htext.symm, hd, ?_,
      fun v hv hbefore => ?_⟩
    · rw [hposition]
      exact hnext
    · rw [htext, h, hrest] at hv
      rw [hposition] at hbefore ⊢
      rcases List.mem_cons.1 hv with rfl | hv
      · rw [hs, offset_afterAll _ before]
        exact Nat.le_add_right _ _
      · exact hends v hv hbefore

theorem append_inj_of_bytes {as bs cs ds : List Char} (h : as ++ bs = cs ++ ds)
    (hbytes : (String.ofList as).utf8ByteSize = (String.ofList cs).utf8ByteSize) :
    as = cs ∧ bs = ds := by
  have hoffset (p : Position) : (p.afterAll as).offset = (p.afterAll cs).offset := by
    rw [offset_afterAll, offset_afterAll, hbytes]
  rcases List.append_eq_append_iff.1 h with ⟨extra, rfl, rfl⟩ | ⟨extra, rfl, rfl⟩
  · cases extra with
    | nil => simp
    | cons c extra =>
      have hless := offset_lt_afterAll (Position.start.afterAll as) (List.cons_ne_nil c extra)
      rw [← Position.afterAll_append, ← hoffset] at hless
      omega
  · cases extra with
    | nil => simp
    | cons c extra =>
      have hless := offset_lt_afterAll (Position.start.afterAll cs) (List.cons_ne_nil c extra)
      rw [← Position.afterAll_append, hoffset] at hless
      omega

/-- A name in a text, the token `t`, is exchanged for another one. It may be exchanged where it
stands, and no separator goes on with it. -/
inductive Renamed (x : Exchange) : String → String → Prop where
  | name {before name other after : String} {ts us : List Token} {b t : Token} :
      scan (before ++ name ++ after) = ts ++ b :: t :: us →
      t.start.offset = before.utf8ByteSize → t.text = name →
      x.Takes (some b.kind) (TokenKind.opened (ts ++ [b])) (us.head?.map fun u => u.kind) t.kind
        name other →
      (∀ u ∈ us.head?, ¬ (u.kind = .separator ∧ t.isAdjacent u = true)) →
      Renamed x (before ++ name ++ after) (before ++ other ++ after)

theorem scanFrom_leader {p : Position} {c : Char} {gap : List Char} {kind : TokenKind}
    (hc : Lexeme.isPadding c = false) (hread : ∀ ds, Lexeme.read c ds = .single kind c ds)
    (hgap : ∀ d ∈ gap, Lexeme.isPadding d = true) (more : List Char) :
    scanFrom 0 p (c :: (gap ++ more)) = ⟨kind, String.ofList [c], p, (p.after c).offset⟩ ::
      scanFrom 0 ((p.after c).afterAll gap) more := by
  rw [scanFrom_lexeme hc (hread _), Position.afterAll_cons, Position.afterAll_nil,
    scanFrom_gap hgap]

theorem scanFrom_name {p : Position} {c : Char} {cs rest : List Char} (h : Lexeme.IsName c cs)
    (hrest : Lexeme.nameTail rest = ([], rest)) :
    scanFrom 0 p (c :: cs ++ rest) = ⟨Lexeme.nameKind (c :: cs), String.ofList (c :: cs), p,
      (p.afterAll (c :: cs)).offset⟩ :: scanFrom 0 (p.afterAll (c :: cs)) rest := by
  have hread := h.read rest
  rw [hrest, List.append_nil] at hread
  exact scanFrom_lexeme h.not_isPadding hread

/-- In front of a name there is a gap and a single character. -/
theorem exists_leader {cs : List Char} {ts us : List Token} {b t : Token}
    (h : scanFrom 0 .start cs = ts ++ b :: t :: us) (hleads : b.kind.leads = true) :
    ∃ front p gap more, cs = front ++ p :: (gap ++ more) ∧ p ∈ Lexeme.leaders ∧
      Lexeme.isPadding p = false ∧ (∀ ds, Lexeme.read p ds = .single b.kind p ds) ∧
      (∀ c ∈ gap, Lexeme.isPadding c = true) ∧ EndsBefore .start front (p :: (gap ++ more)) ∧
      ∃ c later, more = c :: later ∧ Lexeme.isPadding c = false ∧
        scanFrom 0 (((Position.start.afterAll front).after p).afterAll gap) more = t :: us := by
  obtain ⟨front, p, more, rfl, hp, hlast, hbefore⟩ := exists_of_scanFrom_append h
  obtain ⟨hb, hrest⟩ := token_of_scanFrom hp hlast
  have hkind : b.kind = (Lexeme.read p more).kind := by rw [hb]
  obtain ⟨hleader, hsingle⟩ := Lexeme.read_leader (hkind ▸ hleads)
  rw [← hkind] at hsingle
  rw [hsingle more] at hrest
  obtain ⟨gap, c, later, rfl, hgap, hc, -, -⟩ := exists_of_scanFrom_cons hrest.symm
  have hname : scanFrom 0 ((Position.start.afterAll front).after p) (gap ++ c :: later) = t :: us :=
    hrest.symm
  rw [scanFrom_gap hgap] at hname
  exact ⟨front, p, gap, c :: later, rfl, hleader, hp, hsingle, hgap, hbefore, c, later, rfl, hc,
    hname⟩

/-- A token that has the text of a name takes just that, and no name goes on behind it. -/
theorem exists_of_scanFrom_name {p : Position} {c d : Char} {cs later : List Char} {t : Token}
    {us : List Token} (hd : Lexeme.isPadding d = false) (h : scanFrom 0 p (d :: later) = t :: us)
    (hkind : t.kind.isClassPart = true) (htext : t.text.toList = c :: cs)
    (hname : Lexeme.IsName c cs) : ∃ after, d :: later = c :: cs ++ after ∧
      Lexeme.nameTail after = ([], after) ∧ t.start = p ∧ t.stop = (p.afterAll (c :: cs)).offset ∧
      us = scanFrom 0 (p.afterAll (c :: cs)) after := by
  obtain ⟨ht, hus⟩ := token_of_scanFrom hd h
  have hsource : (Lexeme.read d later).source = c :: cs := by
    rw [← Lexeme.text_of_read, ← htext, ht, String.toList_ofList]
    rw [ht] at hkind
    intro hstring
    rw [hstring] at hkind
    cases hkind
  have hwhole := Lexeme.read_append d later
  rw [hsource] at hwhole hus
  obtain ⟨rfl, hlater⟩ := List.cons.inj hwhole
  refine ⟨(Lexeme.read c later).rest, hwhole.symm, ?_, by rw [ht], by rw [ht, hsource], hus⟩
  generalize hafter : (Lexeme.read c later).rest = after at hlater
  obtain rfl : cs ++ after = later := hlater
  rw [hname.read] at hafter
  dsimp only at hafter
  have hnothing := Lexeme.nameTail_append after
  rw [hafter, List.append_left_eq_self] at hnothing
  exact Prod.ext hnothing hafter

/-- In a text a name stands behind a single character and a gap, in front of what ends it. -/
theorem exists_of_scanFrom_leads {before after cs : List Char} {c : Char} {ts us : List Token}
    {b t : Token} (h : scanFrom 0 .start (before ++ (c :: cs ++ after)) = ts ++ b :: t :: us)
    (hleads : b.kind.leads = true) (hkind : t.kind.isClassPart = true)
    (htext : t.text.toList = c :: cs) (hname : Lexeme.IsName c cs)
    (hstart : t.start.offset = (String.ofList before).utf8ByteSize) :
    ∃ front p gap, before = front ++ p :: gap ∧ p ∈ Lexeme.leaders ∧
      Lexeme.isPadding p = false ∧ (∀ ds, Lexeme.read p ds = .single b.kind p ds) ∧
      (∀ d ∈ gap, Lexeme.isPadding d = true) ∧
      EndsBefore .start front (p :: (gap ++ (c :: cs ++ after))) ∧
      Lexeme.nameTail after = ([], after) ∧ t.start = Position.start.afterAll before ∧
      t.stop = (t.start.afterAll (c :: cs)).offset ∧
      scanFrom 0 t.start (c :: cs ++ after) = t :: us ∧
      us = scanFrom 0 (t.start.afterAll (c :: cs)) after := by
  obtain ⟨front, p, gap, more, hfront, hleader, hp, hread, hgap, hbefore, d, later, rfl, hd,
    hnext⟩ := exists_leader h hleads
  obtain ⟨rest, hmore, hrest, hfrom, hstop, hus⟩ :=
    exists_of_scanFrom_name hd hnext hkind htext hname
  have hplace : Position.start.afterAll (front ++ p :: gap) = t.start := by
    rw [hfrom, Position.afterAll_append, Position.afterAll_cons]
  have hbytes : (String.ofList before).utf8ByteSize =
      (String.ofList (front ++ p :: gap)).utf8ByteSize := by
    have hoffset := offset_afterAll .start (front ++ p :: gap)
    rw [hplace, hstart] at hoffset
    rw [hoffset]
    exact Nat.zero_add _
  obtain ⟨rfl, hbehind⟩ : before = front ++ p :: gap ∧ c :: cs ++ after = c :: cs ++ rest := by
    refine append_inj_of_bytes ?_ hbytes
    rw [hfront, hmore, List.append_assoc]
    rfl
  obtain rfl : after = rest := List.append_cancel_left hbehind
  rw [hmore] at hbefore hnext
  rw [← hfrom] at hnext hstop hus
  exact ⟨front, p, gap, rfl, hleader, hp, hread, hgap, hbefore, hrest, hplace.symm, hstop, hnext,
    hus⟩

/-- The tokens of a text in which a name is exchanged are the same but for that name. -/
theorem Renamed.scan_eq {x : Exchange} {body other : String} (h : Renamed x body other)
    (hx : x.Qualifies) : ∃ ts b t us u vs, scan body = ts ++ b :: t :: us ∧
      scan other = ts ++ b :: u :: vs ∧ u.kind = .qualifiedName ∧ u.start = t.start ∧
      x.Takes (some b.kind) (TokenKind.opened (ts ++ [b])) (us.head?.map fun u => u.kind) t.kind
        t.text u.text ∧
      (∀ u ∈ us.head?, ¬ (u.kind = .separator ∧ t.isAdjacent u = true)) ∧
      Glyph.ofTokens (some t) us = Glyph.ofTokens (some u) vs := by
  obtain ⟨hscan, hstart, rfl, htakes, hends⟩ := h
  rename_i before other after ts us b t
  obtain ⟨⟨c, cs, hname, hisName⟩, ds, hother, hisOther⟩ := hx _ _ htakes.swaps
  have hleads := htakes.leads
  rw [Option.any_some] at hleads
  have hbody : (before ++ t.text ++ after).toList =
      before.toList ++ (c :: cs ++ after.toList) := by
    rw [String.toList_append, String.toList_append, hname, List.append_assoc]
  have hothers : (before ++ other ++ after).toList =
      before.toList ++ ('\\' :: ds ++ after.toList) := by
    rw [String.toList_append, String.toList_append, hother, List.append_assoc]
  have hchars := hscan
  unfold scan at hchars ⊢
  rw [hbody] at hchars ⊢
  rw [hothers]
  obtain ⟨front, p, gap, hfront, hleader, hp, hread, hgap, hbefore, hrest, hfrom, hstop, hnext,
    hus⟩ := exists_of_scanFrom_leads hchars hleads htakes.isClassPart hname hisName
      (by rw [String.ofList_toList, hstart])
  obtain ⟨ks, hfirst, hsecond, -⟩ :=
    scanFrom_exchange (Lexeme.exchangeable_names hleader hgap hisName hisOther after.toList) hbefore
  have hplace : ((Position.start.afterAll front).after p).afterAll gap = t.start := by
    rw [hfrom, hfront, Position.afterAll_append, Position.afterAll_cons]
  rw [scanFrom_leader hp hread hgap, hplace] at hfirst hsecond
  rw [hnext] at hfirst
  rw [scanFrom_name hisOther hrest] at hsecond
  rw [hfront, List.append_assoc] at hchars
  rw [hfront, List.append_assoc, List.append_assoc]
  have hsame : ks ++ _ :: t :: us = ts ++ b :: t :: us := hfirst.symm.trans hchars
  obtain ⟨rfl, hlast⟩ := List.append_inj' hsame rfl
  obtain ⟨hleading, -⟩ := List.cons.inj hlast
  rw [hleading] at hsecond
  have htext : String.ofList ('\\' :: ds) = other := by rw [← hother, String.ofList_toList]
  refine ⟨ks, b, t, us, ⟨_, _, t.start, _⟩, _, hchars, hsecond, Lexeme.nameKind_separated ds, rfl,
    ?_, hends, ?_⟩
  · rw [htext]
    exact htakes
  · rw [hus]
    refine Glyph.ofTokens_scanFrom fun n => ?_
    rw [Option.any_some, Option.any_some, hstop, Bool.eq_iff_iff, beq_iff_eq, beq_iff_eq]
    dsimp only
    omega

end Token

namespace Glyph

variable {x : Exchange} {rest : List Glyph}

theorem Recast.ofTokens_append {gs hs : List Glyph} (ts : List Token) (b : Token)
    (previous : Option Token) (before : Option TokenKind) (opened : List TokenKind)
    (h : Recast x rest (some b.kind)
      ((ts ++ [b]).foldl (fun opened t => t.kind.enclose opened) opened) gs hs) :
    Recast x rest before opened (ofTokens previous (ts ++ [b]) ++ gs)
      (ofTokens previous (ts ++ [b]) ++ hs) := by
  induction ts generalizing previous before opened with
  | nil => exact .same h
  | cons t ts ih => exact .same (ih (some t) (some t.kind) (t.kind.enclose opened) h)

theorem head?_ofTokens (previous : Option Token) (ts : List Token) :
    (ofTokens previous ts).head?.map (fun g => g.kind) = ts.head?.map fun t => t.kind := by
  cases ts <;> rfl

/-- A text in which a name is exchanged has the glyphs with the name exchanged. -/
theorem recast_of_renamed {body other : String} (h : Token.Renamed x body other)
    (hx : x.Qualifies) : Recast x [] none [] (ofText body.toList) (ofText other.toList) := by
  obtain ⟨ts, b, t, us, u, vs, hscan, hother, hkind, hstart, htakes, hends, hbehind⟩ := h.scan_eq hx
  have hsplit (v : Token) (ws : List Token) : ofTokens none (ts ++ b :: v :: ws) =
      ofTokens none (ts ++ [b]) ++
        ⟨v.kind, v.text, b.isAdjacent v⟩ :: ofTokens (some v) ws := by
    have happend := ofTokens_append none (ts ++ [b]) (v :: ws)
    rw [List.getLast?_concat, List.append_assoc] at happend
    exact happend
  have hglued : b.isAdjacent u = b.isAdjacent t := by
    unfold Token.isAdjacent
    rw [hstart]
  have hname : EndsName (ofTokens (some t) us) := by
    intro g hg
    cases us with
    | nil => cases hg
    | cons next us =>
      obtain rfl := Option.some.inj hg
      exact hends next rfl
  have hrest : Recast x [] (some t.kind)
      (t.kind.enclose ((ts ++ [b]).foldl (fun opened t => t.kind.enclose opened) []))
      (ofTokens (some t) us) (ofTokens (some u) vs) := by
    rw [hbehind]
    exact recast_refl x _ _ _
  have hbody : Token.scanFrom 0 .start body.toList = ts ++ b :: t :: us := hscan
  have hothers : Token.scanFrom 0 .start other.toList = ts ++ b :: u :: vs := hother
  unfold ofText
  rw [hbody, hothers, hsplit, hsplit, hkind, hglued]
  refine Recast.ofTokens_append ts b none none [] (.exchanged ?_ hname hrest)
  rw [head?_ofTokens]
  exact htakes

end Glyph

end Docblock
