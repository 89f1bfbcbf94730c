import Docblock.Proofs.Decimal.MachineText
import Docblock.Token.Scan

/-!
# Scanning lexemes

A text that is read as one lexeme gives one token in front of whatever follows. Names, numbers and
strings end where a character follows that cannot continue them.
-/

namespace Docblock

namespace Token

theorem scanFrom_lexeme {p : Position} {c : Char} {cs source text rest : List Char}
    {kind : TokenKind} (hpadding : Lexeme.isPadding c = false)
    (hread : Lexeme.read c cs = ⟨kind, text, c :: source, rest⟩) :
    scanFrom 0 p (c :: cs) =
      ⟨kind, String.ofList text, p, (p.afterAll (c :: source)).offset⟩ ::
        scanFrom 0 (p.afterAll (c :: source)) rest := by
  have hwhole := Lexeme.read_append c cs
  rw [hread, List.cons_append] at hwhole
  obtain rfl : source ++ rest = cs := (List.cons.inj hwhole).2
  rw [scanFrom, hpadding]
  simp only [Bool.false_eq_true, if_false, hread]
  rw [List.length_cons, Nat.add_sub_cancel, scanFrom_eq_drop, List.take_left, List.drop_left]
  rfl

theorem scanFrom_padding {p : Position} {c : Char} {cs : List Char}
    (hpadding : Lexeme.isPadding c = true) :
    scanFrom 0 p (c :: cs) = scanFrom 0 (p.after c) cs := by
  rw [scanFrom, hpadding]
  rfl

end Token

namespace Lexeme

def StopsName (rest : List Char) : Prop :=
  ∀ c, rest.head? = some c → isNameChar c = false ∧ c ≠ '\\' ∧ c ≠ ':'

def StopsNumber (rest : List Char) : Prop :=
  ∀ c, rest.head? = some c →
    c.isDigit = false ∧ c ≠ '.' ∧ Decimal.isExponentMark c = false

theorem startsWith_append {p : Char → Bool} {cs : List Char} (h : startsWith p cs = true)
    (rest : List Char) : startsWith p (cs ++ rest) = true := by
  cases cs with
  | nil => cases h
  | cons c cs => exact h

theorem nameTail_of_stops {rest : List Char} (h : StopsName rest) :
    nameTail rest = ([], rest) := by
  cases rest with
  | nil => rfl
  | cons c cs =>
    obtain ⟨hchar, hslash, hcolon⟩ := h c rfl
    unfold nameTail
    rw [hchar]
    have hslash' : (decide (c = '\\')) = false := by simpa using hslash
    simp only [hslash', Bool.false_and, Bool.or_self, Bool.false_eq_true, if_false]
    split
    · exact absurd rfl hcolon
    · rfl

theorem nameTail_goes {c : Char} {cs : List Char}
    (h : (isNameChar c || (c = '\\' && startsWith isNameStart cs)) = true) :
    nameTail (c :: cs) = (c :: (nameTail cs).1, (nameTail cs).2) := by
  rw [nameTail.eq_def]
  exact if_pos h

theorem nameTail_colons (ds : List Char) :
    nameTail (':' :: ':' :: ds) = if startsWith isNameStart ds then
      (':' :: ':' :: (nameTail ds).1, (nameTail ds).2) else ([], ':' :: ':' :: ds) := by
  have hcolon : isNameChar ':' = false := by decide
  rw [nameTail.eq_def]
  exact if_neg (by simp [hcolon])

theorem nameTail_ends {c : Char} {cs : List Char}
    (h : ¬ (isNameChar c || (c = '\\' && startsWith isNameStart cs)) = true)
    (hother : ∀ ds, c = ':' → cs = ':' :: ds → False) : nameTail (c :: cs) = ([], c :: cs) := by
  rw [nameTail.eq_def]
  refine (if_neg h).trans ?_
  split
  · next ds => exact (hother ds rfl rfl).elim
  · rfl

/-- A name that takes a whole text goes on with what goes on with a name behind it. -/
theorem nameTail_append_whole {cs : List Char} (h : nameTail cs = (cs, [])) (rest : List Char) :
    nameTail (cs ++ rest) = (cs ++ (nameTail rest).1, (nameTail rest).2) := by
  fun_induction nameTail cs with
  | case1 => rfl
  | case2 c cs hgoes ih =>
    obtain ⟨htail, hleft⟩ := Prod.mk.inj h
    have hwhole := ih (Prod.ext (List.cons.inj htail).2 hleft)
    have hstill : (isNameChar c || decide (c = '\\') && startsWith isNameStart (cs ++ rest)) =
        true := by
      rw [Bool.or_eq_true, Bool.and_eq_true] at hgoes ⊢
      exact hgoes.imp_right fun hslash => ⟨hslash.1, startsWith_append hslash.2 rest⟩
    rw [List.cons_append, nameTail_goes hstill, hwhole]
    rfl
  | case3 ds hgoes hcolon ih =>
    obtain ⟨htail, hleft⟩ := Prod.mk.inj h
    have hwhole := ih (Prod.ext (List.cons.inj (List.cons.inj htail).2).2 hleft)
    rw [List.cons_append, List.cons_append, nameTail_colons, if_pos (startsWith_append hgoes rest),
      hwhole]
    rfl
  | case4 ds hgoes hcolon => cases h
  | case5 c cs hother hstop => cases h

/-- A name that takes a whole text takes as much in front of a character that stops it. -/
theorem nameTail_append_rest {cs rest : List Char} (h : nameTail cs = (cs, []))
    (hrest : StopsName rest) : nameTail (cs ++ rest) = (cs, rest) := by
  rw [nameTail_append_whole h, nameTail_of_stops hrest, List.append_nil]

theorem name_append_rest {c : Char} {cs rest : List Char} (h : nameTail cs = (cs, []))
    (hrest : StopsName rest) :
    name c (cs ++ rest) = ⟨nameKind (c :: cs), c :: cs, c :: cs, rest⟩ := by
  unfold name
  rw [nameTail_append_rest h hrest]

theorem code_of_isDigit {c : Char} (h : c.isDigit = true) : 48 ≤ c.toNat ∧ c.toNat ≤ 57 := by
  obtain ⟨hlow, hhigh⟩ := (Bool.and_eq_true _ _).mp h
  exact ⟨UInt32.le_iff_toNat_le.1 (of_decide_eq_true hlow),
    UInt32.le_iff_toNat_le.1 (of_decide_eq_true hhigh)⟩

theorem code_of_isAlpha {c : Char} (h : c.isAlpha = true) : 65 ≤ c.toNat := by
  obtain hupper | hlower := (Bool.or_eq_true _ _).mp h
  · obtain ⟨hlow, -⟩ := of_decide_eq_true hupper
    exact UInt32.le_iff_toNat_le.1 hlow
  · obtain ⟨hlow, -⟩ := (Bool.and_eq_true _ _).mp hlower
    have hcode : 97 ≤ c.toNat := UInt32.le_iff_toNat_le.1 (of_decide_eq_true hlow)
    omega

theorem not_digit_of_isNameStart {c : Char} (h : isNameStart c = true) :
    c.isDigit = false ∧ Decimal.isSign c = false := by
  constructor
  · rw [← Bool.not_eq_true]
    intro hdigit
    have hcode := code_of_isDigit hdigit
    have hascii : Text.isAscii c = true := decide_eq_true (by omega)
    unfold isNameStart Text.isLetter at h
    rw [hascii, if_pos rfl, Bool.or_eq_true] at h
    obtain h | h := h
    · obtain rfl := eq_of_beq h
      exact absurd hdigit (by decide)
    · have halpha := code_of_isAlpha h
      omega
  · rw [← Bool.not_eq_true]
    intro hsign
    simp only [Decimal.isSign, Bool.or_eq_true, beq_iff_eq] at hsign
    obtain rfl | rfl := hsign
    · exact absurd h (by decide)
    · exact absurd h (by decide)

theorem read_of_isNameStart {c : Char} {cs : List Char} (h : isNameStart c = true) :
    read c cs = name c cs := by
  obtain ⟨hdigit, hsign⟩ := not_digit_of_isNameStart h
  unfold read
  split
  case h_11 =>
    rw [hdigit, hsign, Bool.false_and, Bool.or_self]
    simp [h]
  all_goals exact absurd h (by decide)

theorem read_of_number {c : Char} {cs : List Char}
    (h : (c.isDigit || (Decimal.isSign c && startsWith Char.isDigit cs)) = true) :
    read c cs = number (c :: cs) := by
  unfold read
  split
  case h_11 => rw [if_pos h]
  all_goals
    rw [Bool.or_eq_true, Bool.and_eq_true] at h
    obtain h | ⟨h, -⟩ := h
    · exact absurd h (by decide)
    · exact absurd h (by decide)

theorem digits_append_rest {ds rest : List Char} (hall : ∀ c ∈ ds, c.isDigit = true)
    (hrest : StopsNumber rest) : digits (ds ++ rest) = (ds, rest) := by
  have hnone : rest.takeWhile Char.isDigit = [] ∧ rest.dropWhile Char.isDigit = rest := by
    cases rest with
    | nil => exact ⟨rfl, rfl⟩
    | cons c cs =>
      have hdigit := (hrest c rfl).1
      rw [List.takeWhile_cons, List.dropWhile_cons, hdigit]
      exact ⟨rfl, rfl⟩
  unfold digits
  rw [List.takeWhile_append_of_pos hall, List.dropWhile_append_of_pos hall, hnone.1, hnone.2,
    List.append_nil]

theorem fraction_of_stops {rest : List Char} (h : StopsNumber rest) :
    fraction rest = ([], rest) := by
  cases rest with
  | nil => rfl
  | cons c cs =>
    have hpoint := (h c rfl).2.1
    unfold fraction
    simp [hpoint]

theorem exponent_of_stops {rest : List Char} (h : StopsNumber rest) :
    exponent rest = ([], rest) := by
  cases rest with
  | nil => rfl
  | cons c cs =>
    have hmark := (h c rfl).2.2
    unfold exponent
    simp [hmark]

theorem number_of_digits {s ds rest : List Char} (hsign : sign (s ++ ds ++ rest) = (s, ds ++ rest))
    (hall : ∀ c ∈ ds, c.isDigit = true) (hrest : StopsNumber rest) :
    number (s ++ ds ++ rest) = ⟨.integer, s ++ ds, s ++ ds, rest⟩ := by
  unfold number
  rw [hsign]
  dsimp only
  rw [digits_append_rest hall hrest]
  dsimp only
  rw [fraction_of_stops hrest]
  dsimp only
  rw [exponent_of_stops hrest]
  simp

theorem isSign_of_isDigit {c : Char} (h : c.isDigit = true) : Decimal.isSign c = false := by
  rw [← Bool.not_eq_true]
  intro hsign
  simp only [Decimal.isSign, Bool.or_eq_true, beq_iff_eq] at hsign
  obtain rfl | rfl := hsign
  · exact absurd h (by decide)
  · exact absurd h (by decide)

theorem isPadding_of_isDigit {c : Char} (h : c.isDigit = true) : isPadding c = false := by
  have hcode := code_of_isDigit h
  have hblank : Text.isBlank c = false := by
    simp only [Text.isBlank, Text.blankRanges, Text.inRanges_cons, Text.inRanges_nil, Bool.or_false,
      Bool.or_eq_false_iff, Bool.and_eq_false_iff, decide_eq_false_iff_not]
    omega
  have hstar : (c == '*') = false := by
    rw [beq_eq_false_iff_ne]
    rintro rfl
    exact absurd h (by decide)
  rw [isPadding, hblank, hstar]
  rfl

/-- The text of a machine integer is read as one integer. -/
theorem read_machineText (n : Int64) {rest : List Char} (hrest : StopsNumber rest) :
    ∃ c cs, Decimal.machineText n = c :: cs ∧ isPadding c = false ∧
      read c (cs ++ rest) =
        ⟨.integer, Decimal.machineText n, Decimal.machineText n, rest⟩ := by
  have hall : ∀ c ∈ Decimal.magnitude n, c.isDigit = true := fun c hc => Decimal.digits_isDigit hc
  obtain ⟨d, ds, hdigits⟩ : ∃ d ds, Decimal.magnitude n = d :: ds := by
    cases hmagnitude : Decimal.magnitude n with
    | nil => exact absurd hmagnitude Nat.toDigits_ne_nil
    | cons d ds => exact ⟨d, ds, rfl⟩
  have hfirst : d.isDigit = true := hall d (by rw [hdigits]; exact List.mem_cons_self)
  obtain htext | ⟨htext, -⟩ := Decimal.machineText_cases n
  · have hsign : sign ([] ++ Decimal.magnitude n ++ rest) = ([], Decimal.magnitude n ++ rest) := by
      rw [hdigits]
      change (if Decimal.isSign d then _ else _) = _
      rw [isSign_of_isDigit hfirst]
      rfl
    have hnumber := number_of_digits hsign hall hrest
    refine ⟨d, ds, htext.trans hdigits, isPadding_of_isDigit hfirst, ?_⟩
    rw [read_of_number (by rw [hfirst]; rfl), htext]
    rw [List.nil_append, hdigits] at hnumber
    rw [hdigits]
    exact hnumber
  · have hsign : sign (['-'] ++ Decimal.magnitude n ++ rest) =
        (['-'], Decimal.magnitude n ++ rest) :=
      rfl
    have hnumber := number_of_digits hsign hall hrest
    refine ⟨'-', Decimal.magnitude n, htext, by decide, ?_⟩
    rw [read_of_number, htext]
    · exact hnumber
    · rw [hdigits]
      simp [Decimal.isSign, startsWith, hfirst]

def escaped : List Char → List Char
  | [] => []
  | c :: cs => if c = '"' ∨ c = '\\' then '\\' :: c :: escaped cs else c :: escaped cs

def quoted (s : String) : List Char := '"' :: (escaped s.toList ++ ['"'])

/-- A quote or a backslash behind a backslash belongs to the string. -/
theorem stringTail_hidden {d : Char} (h : d = '"' ∨ d = '\\') (ds : List Char) :
    stringTail ('\\' :: d :: ds) = (stringTail ds).map fun (text, source, rest) =>
      (d :: text, '\\' :: d :: source, rest) := by
  rw [stringTail.eq_def]
  simp [h]

theorem stringTail_bare {c : Char} {cs : List Char} (hquote : c ≠ '"')
    (h : c = '\\' → ∃ d ds, cs = d :: ds ∧ ¬ (d = '"' ∨ d = '\\')) :
    stringTail (c :: cs) = (stringTail cs).map fun (text, source, rest) =>
      (c :: text, c :: source, rest) := by
  rw [stringTail.eq_def]
  by_cases hslash : c = '\\'
  · obtain ⟨d, ds, rfl, hplain⟩ := h hslash
    simp [hslash, hplain]
  · simp [hquote, hslash]

theorem stringTail_escaped (cs rest : List Char) :
    stringTail (escaped cs ++ '"' :: rest) = some (cs, escaped cs ++ ['"'], rest) := by
  induction cs with
  | nil =>
    rw [escaped, List.nil_append]
    unfold stringTail
    rfl
  | cons c cs ih =>
    by_cases hspecial : c = '"' ∨ c = '\\'
    · rw [escaped, if_pos hspecial, List.cons_append, List.cons_append,
        stringTail_hidden hspecial, ih]
      rfl
    · obtain ⟨hquote, hslash⟩ := not_or.1 hspecial
      rw [escaped, if_neg hspecial, List.cons_append,
        stringTail_bare hquote fun hsame => absurd hsame hslash, ih]
      rfl

theorem read_quoted (s : String) (rest : List Char) :
    read '"' (escaped s.toList ++ '"' :: rest) = ⟨.string, s.toList, quoted s, rest⟩ := by
  change string (escaped s.toList ++ '"' :: rest) = _
  unfold string
  rw [stringTail_escaped]
  rfl

theorem kind_number (cs : List Char) :
    (number cs).kind = .integer ∨ (number cs).kind = .float := by
  unfold number
  dsimp only
  split
  · exact .inl rfl
  · exact .inr rfl

/-- Only names give tokens that may be part of a class name. -/
theorem read_eq_name {c : Char} {cs : List Char} (h : (read c cs).kind.isClassPart = true) :
    read c cs = name c cs ∧
      (isNameStart c = true ∨ c = '\\' ∧ startsWith isNameStart cs = true) := by
  unfold read at h ⊢
  split at h
  case h_9 =>
    unfold string at h
    split at h <;> cases h
  case h_10 =>
    split at h
    · next hstart => exact ⟨if_pos hstart, .inr ⟨rfl, hstart⟩⟩
    · cases h
  case h_11 =>
    split at h
    · obtain hkind | hkind := kind_number (c :: cs)
      · rw [hkind] at h
        cases h
      · rw [hkind] at h
        cases h
    · next hnumber =>
      split at h
      · next hstart =>
        rw [if_neg hnumber, if_pos hstart]
        exact ⟨rfl, .inl hstart⟩
      · cases h
  all_goals cases h

end Lexeme

namespace Token

theorem offset_le_after (p : Position) (c : Char) : p.offset < (p.after c).offset := by
  have hsize := c.utf8Size_pos
  unfold Position.after
  split <;> (dsimp only; omega)

theorem start_of_mem_scanFrom {skip : Nat} {p : Position} {cs : List Char} {t : Token}
    (h : t ∈ scanFrom skip p cs) : p.offset ≤ t.start.offset := by
  induction cs generalizing skip p with
  | nil => cases h
  | cons c cs ih =>
    have hnext := offset_le_after p c
    cases skip with
    | succ skip =>
      have hle := ih h
      omega
    | zero =>
      unfold scanFrom at h
      dsimp only at h
      split at h
      · have hle := ih h
        omega
      · obtain rfl | h := List.mem_cons.1 h
        · exact Nat.le_refl _
        · have hle := ih h
          omega

def IsWhole (kind : TokenKind) (s : String) : Prop :=
  ∃ stop, scan s = [⟨kind, s, .start, stop⟩]

/-- A text that is one name token is a name from its first character to its last. -/
theorem IsWhole.name {kind : TokenKind} {s : String} (h : IsWhole kind s)
    (hkind : kind.isName = true) :
    ∃ c cs, s.toList = c :: cs ∧
      (Lexeme.isNameStart c = true ∨ c = '\\' ∧ Lexeme.startsWith Lexeme.isNameStart cs = true) ∧
      Lexeme.isPadding c = false ∧ Lexeme.nameTail cs = (cs, []) ∧
      Lexeme.nameKind (c :: cs) = kind := by
  obtain ⟨stop, hscan⟩ := h
  unfold scan at hscan
  cases hs : s.toList with
  | nil =>
    rw [hs] at hscan
    cases hscan
  | cons c cs =>
    rw [hs] at hscan
    unfold scanFrom at hscan
    dsimp only at hscan
    split at hscan
    · have hmem : ⟨kind, s, .start, stop⟩ ∈ scanFrom 0 (Position.start.after c) cs := by
        rw [hscan]
        exact List.mem_cons_self
      have hstart := start_of_mem_scanFrom hmem
      have hnext := offset_le_after .start c
      have hnever : (Position.start.after c).offset ≤ Position.start.offset := hstart
      omega
    · next hpadding =>
      obtain ⟨htoken, -⟩ := List.cons.inj hscan
      have hread : (Lexeme.read c cs).kind = kind := congrArg Token.kind htoken
      have htext : String.ofList (Lexeme.read c cs).text = s := congrArg Token.text htoken
      obtain ⟨hname, hfirst⟩ := Lexeme.read_eq_name
        (by rw [hread]; exact TokenKind.isClassPart_of_isName hkind)
      have hchars : c :: (Lexeme.nameTail cs).1 = c :: cs := by
        rw [← hs, ← htext, hname, String.toList_ofList]
        rfl
      have htail := (List.cons.inj hchars).2
      have hleft := Lexeme.nameTail_append cs
      rw [htail, List.append_right_eq_self] at hleft
      refine ⟨c, cs, rfl, hfirst, by simpa using hpadding, Prod.ext htail hleft, ?_⟩
      rw [← hread, hname]
      change _ = Lexeme.nameKind (c :: (Lexeme.nameTail cs).1)
      rw [htail]

/-- In front of a character that stops it, such a text is read as that token. -/
theorem IsWhole.read {kind : TokenKind} {s : String} (h : IsWhole kind s)
    (hkind : kind.isName = true) {rest : List Char} (hrest : Lexeme.StopsName rest) :
    ∃ c cs, s.toList = c :: cs ∧ Lexeme.isPadding c = false ∧
      Lexeme.read c (cs ++ rest) = ⟨kind, c :: cs, c :: cs, rest⟩ := by
  obtain ⟨c, cs, hs, hfirst, hpadding, htail, hname⟩ := h.name hkind
  have hread : Lexeme.name c (cs ++ rest) = ⟨kind, c :: cs, c :: cs, rest⟩ := by
    rw [Lexeme.name_append_rest htail hrest, hname]
  refine ⟨c, cs, hs, hpadding, ?_⟩
  obtain hstart | ⟨rfl, hstart⟩ := hfirst
  · rw [Lexeme.read_of_isNameStart hstart, hread]
  · rw [← hread]
    exact if_pos (Lexeme.startsWith_append hstart rest)

end Token

end Docblock
