import Docblock.Proofs.Token.Concatenation
import Mathlib.Computability.Language
import Mathlib.Data.List.TakeWhile

/-!
# Numbers and names as languages

Numbers and names are regular languages over classes of characters. What is read as a number or as a
name is the longest prefix of the text in the language.
-/

namespace Docblock

open Computability

namespace Lexeme

structure IsLongest (language : Language Char) (text found : List Char) : Prop where
  mem : found ∈ language
  begins : found <+: text
  longest : ∀ other ∈ language, other <+: text → other.length ≤ found.length

section Languages

variable {l m : Language Char} {text found rest more : List Char}

/-- A word behind another one is longest if no shorter word than this has a word behind it. -/
theorem IsLongest.mul (htext : found ++ rest = text) (hfound : IsLongest l text found)
    (hmore : IsLongest m rest more)
    (hends : ∀ u ∈ l, ∀ v ∈ m, u ++ v <+: text → v ≠ [] → u = found) :
    IsLongest (l * m) text (found ++ more) where
  mem := Language.append_mem_mul hfound.mem hmore.mem
  begins := by
    rw [← htext]
    exact (List.prefix_append_right_inj found).2 hmore.begins
  longest other hother hbegins := by
    obtain ⟨u, hu, v, hv, rfl⟩ := Language.mem_mul.1 hother
    rw [List.length_append, List.length_append]
    by_cases hnone : v = []
    · have hshort := hfound.longest u hu ((List.prefix_append u v).trans hbegins)
      rw [hnone, List.length_nil]
      omega
    · obtain rfl := hends u hu v hv hbegins hnone
      rw [← htext] at hbegins
      have hshort := hmore.longest v hv ((List.prefix_append_right_inj u).1 hbegins)
      omega

theorem IsLongest.optional (h : IsLongest l text found) : IsLongest (1 + l) text found where
  mem := (Language.mem_add _ _ _).2 (.inr h.mem)
  begins := h.begins
  longest other hother hbegins := by
    obtain rfl | hother := (Language.mem_add _ _ _).1 hother
    · exact Nat.zero_le _
    · exact h.longest other hother hbegins

theorem isLongest_nil (h : ∀ u ∈ l, ¬ u <+: text) : IsLongest (1 + l) text [] where
  mem := (Language.mem_add _ _ _).2 (.inl rfl)
  begins := List.nil_prefix
  longest other hother hbegins := by
    obtain rfl | hother := (Language.mem_add _ _ _).1 hother
    · exact Nat.le_refl _
    · exact absurd hbegins (h other hother)

def one (p : Char → Bool) : Language Char := {s | ∃ c, p c = true ∧ s = [c]}

variable {p : Char → Bool} {s : List Char}

theorem mem_one_mul : s ∈ one p * l ↔ ∃ c cs, p c = true ∧ cs ∈ l ∧ s = c :: cs := by
  rw [Language.mem_mul]
  constructor
  · rintro ⟨_, ⟨c, hc, rfl⟩, cs, hcs, rfl⟩
    exact ⟨c, cs, hc, hcs, rfl⟩
  · rintro ⟨c, cs, hc, hcs, rfl⟩
    exact ⟨[c], ⟨c, hc, rfl⟩, cs, hcs, rfl⟩

theorem cons_mem_one_mul {c : Char} : c :: s ∈ one p * l ↔ p c = true ∧ s ∈ l := by
  rw [mem_one_mul]
  constructor
  · rintro ⟨d, ds, hd, hds, hsame⟩
    obtain ⟨rfl, rfl⟩ := List.cons.inj hsame
    exact ⟨hd, hds⟩
  · rintro ⟨hc, hs⟩
    exact ⟨c, s, hc, hs, rfl⟩

theorem mem_kstar_one : s ∈ (one p)∗ ↔ ∀ c ∈ s, p c = true := by
  induction s with
  | nil => simp [Language.nil_mem_kstar]
  | cons c cs ih =>
    rw [← Language.one_add_self_mul_kstar_eq_kstar, Language.mem_add, Language.mem_one,
      cons_mem_one_mul, ih, List.forall_mem_cons]
    simp

theorem isLongest_one {c : Char} (hc : p c = true) (cs : List Char) :
    IsLongest (one p) (c :: cs) [c] where
  mem := ⟨c, hc, rfl⟩
  begins := ⟨cs, rfl⟩
  longest := by
    rintro _ ⟨d, -, rfl⟩ -
    exact Nat.le_refl 1

theorem IsLongest.cons {c : Char} {cs : List Char} (hc : p c = true) (h : IsLongest l cs found) :
    IsLongest (one p * l) (c :: cs) (c :: found) where
  mem := mem_one_mul.2 ⟨c, found, hc, h.mem, rfl⟩
  begins := (List.prefix_cons_inj c).2 h.begins
  longest other hother hbegins := by
    obtain ⟨d, ds, -, hds, rfl⟩ := mem_one_mul.1 hother
    have hshort := h.longest ds hds (List.cons_prefix_cons.1 hbegins).2
    exact Nat.succ_le_succ hshort

theorem isLongest_marked_nil : IsLongest (1 + one p * l) [] [] := by
  refine isLongest_nil fun u hu hbegins => ?_
  obtain ⟨c, cs, -, -, rfl⟩ := mem_one_mul.1 hu
  exact List.cons_ne_nil c cs (List.prefix_nil.1 hbegins)

/-- Behind a character of a class the longest word, or nothing if no word is there. -/
theorem isLongest_marked_cons {c : Char} {cs : List Char} {starts : List Char → Bool}
    {word : List Char → List Char} (hword : ∀ cs, starts cs = true → IsLongest l cs (word cs))
    (hstarts : ∀ u ∈ l, ∀ rest, starts (u ++ rest) = true) :
    IsLongest (1 + one p * l) (c :: cs) (if p c && starts cs then c :: word cs else []) := by
  split
  · next hgoes =>
    obtain ⟨hc, hcs⟩ := Bool.and_eq_true_iff.1 hgoes
    exact .optional (.cons hc (hword cs hcs))
  · next hends =>
    refine isLongest_nil fun u hu hbegins => hends ?_
    obtain ⟨d, ds, hd, hds, rfl⟩ := mem_one_mul.1 hu
    obtain ⟨rfl, rest, rfl⟩ := List.cons_prefix_cons.1 hbegins
    rw [hd, hstarts ds hds rest]
    rfl

end Languages

def digitRuns : Language Char := one Char.isDigit * (one Char.isDigit)∗

def wholeNumbers : Language Char := (1 + one Decimal.isSign) * digitRuns

def fractions : Language Char := one (fun c => c == '.') * digitRuns

def exponents : Language Char := one Decimal.isExponentMark * wholeNumbers

def numbers : Language Char := wholeNumbers * ((1 + fractions) * (1 + exponents))

def joints : Language Char :=
  one (fun c => c == '\\') + one (fun c => c == ':') * one (fun c => c == ':')

def nameTails : Language Char :=
  (one isNameChar)∗ * (joints * (one isNameStart * (one isNameChar)∗))∗

def names : Language Char := (1 + one (fun c => c == '\\')) * (one isNameStart * nameTails)

section Numbers

variable {s w cs rest : List Char}

theorem mem_digitRuns :
    w ∈ digitRuns ↔ startsWith Char.isDigit w = true ∧ ∀ c ∈ w, c.isDigit = true := by
  unfold digitRuns
  rw [mem_one_mul]
  constructor
  · rintro ⟨c, cs, hc, hcs, rfl⟩
    exact ⟨hc, List.forall_mem_cons.2 ⟨hc, mem_kstar_one.1 hcs⟩⟩
  · rintro ⟨hstart, hall⟩
    cases w with
    | nil => cases hstart
    | cons c cs =>
      rw [List.forall_mem_cons] at hall
      exact ⟨c, cs, hall.1, mem_kstar_one.2 hall.2, rfl⟩

theorem digits_append_left (h : ∀ c ∈ w, c.isDigit = true) (rest : List Char) :
    digits (w ++ rest) = (w ++ (digits rest).1, (digits rest).2) := by
  unfold digits
  rw [List.takeWhile_append_of_pos h, List.dropWhile_append_of_pos h]

theorem digits_of_not_startsWith (h : startsWith Char.isDigit rest = false) :
    digits rest = ([], rest) := by
  cases rest with
  | nil => rfl
  | cons c cs =>
    have hdigit : c.isDigit = false := h
    simp [digits, hdigit]

theorem isLongest_digits (h : startsWith Char.isDigit cs = true) :
    IsLongest digitRuns cs (digits cs).1 where
  mem := by
    rw [mem_digitRuns]
    refine ⟨?_, fun c hc => List.mem_takeWhile_imp hc⟩
    cases cs with
    | nil => cases h
    | cons c cs =>
      have hdigit : c.isDigit = true := h
      simp [digits, hdigit, startsWith]
  begins := ⟨(digits cs).2, digits_append cs⟩
  longest other hother hbegins := by
    obtain ⟨rest, rfl⟩ := hbegins
    rw [digits_append_left (mem_digitRuns.1 hother).2, List.length_append]
    exact Nat.le_add_right _ _

/-- A sign in front of digits is the sign of the whole text. -/
theorem sign_append_digits (hs : s ∈ 1 + one Decimal.isSign) (hw : w ∈ digitRuns)
    (rest : List Char) : sign (s ++ w ++ rest) = (s, w ++ rest) := by
  obtain rfl | ⟨c, hc, rfl⟩ := (Language.mem_add _ _ _).1 hs
  · obtain ⟨hstart, -⟩ := mem_digitRuns.1 hw
    cases w with
    | nil => cases hstart
    | cons c cs => simp [sign, isSign_of_isDigit hstart]
  · simp [sign, hc]

def wholeNumber (cs : List Char) : List Char := (sign cs).1 ++ (digits (sign cs).2).1

theorem wholeNumber_append (hs : s ∈ wholeNumbers) (rest : List Char) :
    wholeNumber (s ++ rest) = s ++ (digits rest).1 := by
  obtain ⟨s, hsign, w, hw, rfl⟩ := Language.mem_mul.1 hs
  unfold wholeNumber
  rw [sign_append_digits hsign hw]
  dsimp only
  rw [digits_append_left (mem_digitRuns.1 hw).2, List.append_assoc]

theorem startsWith_sign_of_mem (hs : s ∈ wholeNumbers) (rest : List Char) :
    startsWith Char.isDigit (sign (s ++ rest)).2 = true := by
  obtain ⟨s, hsign, w, hw, rfl⟩ := Language.mem_mul.1 hs
  rw [sign_append_digits hsign hw]
  exact startsWith_append (mem_digitRuns.1 hw).1 rest

theorem wholeNumber_append_rest (cs : List Char) :
    wholeNumber cs ++ (digits (sign cs).2).2 = cs := by
  unfold wholeNumber
  rw [List.append_assoc, digits_append, sign_append]

theorem isLongest_wholeNumber (h : startsWith Char.isDigit (sign cs).2 = true) :
    IsLongest wholeNumbers cs (wholeNumber cs) where
  mem := by
    refine Language.append_mem_mul ?_ (isLongest_digits h).mem
    cases cs with
    | nil => exact (Language.mem_add _ _ _).2 (.inl rfl)
    | cons c cs =>
      cases hc : Decimal.isSign c with
      | false => exact (Language.mem_add _ _ _).2 (.inl (by simp [sign, hc]))
      | true => exact (Language.mem_add _ _ _).2 (.inr ⟨c, hc, by simp [sign, hc]⟩)
  begins := ⟨_, wholeNumber_append_rest cs⟩
  longest other hother hbegins := by
    obtain ⟨rest, rfl⟩ := hbegins
    rw [wholeNumber_append hother, List.length_append]
    exact Nat.le_add_right _ _

theorem isLongest_fraction (cs : List Char) : IsLongest (1 + fractions) cs (fraction cs).1 := by
  cases cs with
  | nil => exact isLongest_marked_nil
  | cons c cs =>
    rw [fraction_cons, apply_ite Prod.fst]
    exact isLongest_marked_cons (fun cs => isLongest_digits) fun w hw rest =>
      startsWith_append (mem_digitRuns.1 hw).1 rest

theorem isLongest_exponent (cs : List Char) : IsLongest (1 + exponents) cs (exponent cs).1 := by
  cases cs with
  | nil => exact isLongest_marked_nil
  | cons c cs =>
    rw [exponent_cons, apply_ite Prod.fst]
    exact isLongest_marked_cons (fun cs => isLongest_wholeNumber) fun w hw rest =>
      startsWith_sign_of_mem hw rest

theorem ne_of_isExponentMark {c : Char} (h : Decimal.isExponentMark c = true) :
    c ≠ '.' ∧ c.isDigit = false := by
  simp only [Decimal.isExponentMark, Bool.or_eq_true, beq_iff_eq] at h
  obtain rfl | rfl := h
  · decide
  · decide

/-- A fraction in front of an exponent is the fraction of the whole text. -/
theorem fraction_append_exponent {u v : List Char} (hu : u ∈ 1 + fractions) (hv : v ∈ exponents)
    (rest : List Char) : (fraction (u ++ (v ++ rest))).1 = u := by
  obtain ⟨e, es, he, -, rfl⟩ := mem_one_mul.1 hv
  obtain ⟨hpoint, hdigit⟩ := ne_of_isExponentMark he
  obtain rfl | hu := (Language.mem_add _ _ _).1 hu
  · rw [List.nil_append, List.cons_append, fraction_cons, if_neg (by simp [hpoint])]
  · obtain ⟨c, w, hc, hw, rfl⟩ := mem_one_mul.1 hu
    obtain ⟨hstart, hall⟩ := mem_digitRuns.1 hw
    have hnext : startsWith Char.isDigit (e :: es ++ rest) = false := hdigit
    rw [List.cons_append, fraction_cons, startsWith_append hstart, digits_append_left hall,
      digits_of_not_startsWith hnext, List.append_nil, if_pos (by simpa using hc)]

theorem not_startsWith_isDigit {v : List Char} (hv : v ∈ (1 + fractions) * (1 + exponents))
    (hsome : v ≠ []) (rest : List Char) : startsWith Char.isDigit (v ++ rest) = false := by
  obtain ⟨f, hf, e, he, rfl⟩ := Language.mem_mul.1 hv
  obtain rfl | hf := (Language.mem_add _ _ _).1 hf
  · obtain rfl | he := (Language.mem_add _ _ _).1 he
    · exact absurd rfl hsome
    · obtain ⟨c, cs, hc, -, rfl⟩ := mem_one_mul.1 he
      exact (ne_of_isExponentMark hc).2
  · obtain ⟨c, cs, hc, -, rfl⟩ := mem_one_mul.1 hf
    obtain rfl := eq_of_beq hc
    rfl

theorem source_number (cs : List Char) : (number cs).source = wholeNumber cs ++
    ((fraction (digits (sign cs).2).2).1 ++
      (exponent (fraction (digits (sign cs).2).2).2).1) := by
  unfold number wholeNumber
  simp only [List.append_assoc]

/-- A number is the longest one at the start of the text. -/
theorem isLongest_number (h : startsWith Char.isDigit (sign cs).2 = true) :
    IsLongest numbers cs (number cs).source := by
  rw [source_number]
  refine .mul (wholeNumber_append_rest cs) (isLongest_wholeNumber h)
    (.mul (fraction_append _) (isLongest_fraction _) (isLongest_exponent _) ?_) ?_
  · -- Behind a shorter fraction there is a digit or a point, and no exponent.
    intro u hu v hv hbegins hsome
    obtain ⟨rest, hrest⟩ := hbegins
    have hv := ((Language.mem_add _ _ _).1 hv).resolve_left hsome
    rw [← hrest, List.append_assoc, fraction_append_exponent hu hv]
  · intro u hu v hv hbegins hsome
    obtain ⟨rest, rfl⟩ := hbegins
    rw [List.append_assoc, wholeNumber_append hu,
      digits_of_not_startsWith (not_startsWith_isDigit hv hsome rest), List.append_nil]

/-- Without a fraction and an exponent a number is an integer, otherwise it is a float. -/
theorem kind_number_cases (h : startsWith Char.isDigit (sign cs).2 = true) :
    ((number cs).kind = .integer ∧ (number cs).source ∈ wholeNumbers) ∨
      ((number cs).kind = .float ∧ (number cs).source ∉ wholeNumbers) := by
  have hsource := source_number cs
  have hkind : (number cs).kind = if (fraction (digits (sign cs).2).2).1.isEmpty &&
      (exponent (fraction (digits (sign cs).2).2).2).1.isEmpty then .integer else .float := rfl
  have hwhole := isLongest_wholeNumber h
  split at hkind
  · next hnone =>
    rw [Bool.and_eq_true, List.isEmpty_iff, List.isEmpty_iff] at hnone
    rw [hnone.1, hnone.2, List.append_nil, List.append_nil] at hsource
    exact .inl ⟨hkind, by rw [hsource]; exact hwhole.mem⟩
  · next hsome =>
    refine .inr ⟨hkind, fun hmem => hsome ?_⟩
    have hshort := hwhole.longest _ hmem ⟨_, number_append cs⟩
    rw [hsource, List.length_append] at hshort
    have hnone := List.append_eq_nil_iff.1
      (List.length_eq_zero_iff.1 (Nat.le_zero.1 (Nat.le_of_add_le_add_left hshort)))
    rw [hnone.1, hnone.2]
    rfl

end Numbers

section Names

variable {c : Char} {cs s : List Char}

theorem nameTails_eq :
    nameTails = 1 + one isNameChar * nameTails + joints * (one isNameStart * nameTails) := by
  unfold nameTails
  calc (one isNameChar)∗ * (joints * (one isNameStart * (one isNameChar)∗))∗
    _ = (1 + one isNameChar * (one isNameChar)∗) *
          (joints * (one isNameStart * (one isNameChar)∗))∗ := by
        rw [Language.one_add_self_mul_kstar_eq_kstar]
    _ = (joints * (one isNameStart * (one isNameChar)∗))∗ + one isNameChar * nameTails := by
        rw [add_mul, one_mul, mul_assoc]
        rfl
    _ = 1 + joints * (one isNameStart * (one isNameChar)∗) *
            (joints * (one isNameStart * (one isNameChar)∗))∗ + one isNameChar * nameTails := by
        rw [Language.one_add_self_mul_kstar_eq_kstar]
    _ = 1 + one isNameChar * nameTails + joints * (one isNameStart * nameTails) := by
        rw [mul_assoc joints, mul_assoc (one isNameStart), add_right_comm]
        rfl

theorem nil_mem_nameTails : [] ∈ nameTails := by
  rw [nameTails_eq, Language.mem_add, Language.mem_add]
  exact .inl (.inl rfl)

theorem isNameStart_ne {c : Char} (h : isNameStart c = true) : c ≠ '\\' ∧ c ≠ ':' := by
  constructor <;>
  · rintro rfl
    exact absurd h (by decide)

theorem cons_mem_nameTails_iff : c :: s ∈ nameTails ↔ (isNameChar c = true ∧ s ∈ nameTails) ∨
    (c = '\\' ∧ s ∈ one isNameStart * nameTails) ∨
    (c = ':' ∧ s ∈ one (fun c => c == ':') * (one isNameStart * nameTails)) := by
  have hnil : ¬ (c :: s ∈ (1 : Language Char)) := nofun
  have hwhole : c :: s ∈ nameTails ↔
      c :: s ∈ 1 + one isNameChar * nameTails + joints * (one isNameStart * nameTails) := by
    rw [← nameTails_eq]
  rw [hwhole]
  unfold joints
  rw [add_mul, mul_assoc (one fun c => c == ':'), Language.mem_add, Language.mem_add,
    Language.mem_add, cons_mem_one_mul, cons_mem_one_mul, cons_mem_one_mul, beq_iff_eq, beq_iff_eq]
  simp only [hnil, false_or]

theorem mem_start_mul_nameTails :
    s ∈ one isNameStart * nameTails ↔ startsWith isNameStart s = true ∧ s ∈ nameTails := by
  cases s with
  | nil =>
    rw [mem_one_mul]
    constructor
    · rintro ⟨c, cs, -, -, hnil⟩
      cases hnil
    · rintro ⟨hstart, -⟩
      cases hstart
  | cons c s =>
    rw [cons_mem_one_mul, cons_mem_nameTails_iff]
    refine and_congr_right fun hstart => ?_
    obtain ⟨hslash, hcolon⟩ := isNameStart_ne hstart
    simp [isNameChar_of_isNameStart hstart, hslash, hcolon]

theorem cons_mem_nameTails : c :: s ∈ nameTails ↔ (isNameChar c = true ∧ s ∈ nameTails) ∨
    (c = '\\' ∧ startsWith isNameStart s = true ∧ s ∈ nameTails) ∨
    ∃ ds, c = ':' ∧ s = ':' :: ds ∧ startsWith isNameStart ds = true ∧ ds ∈ nameTails := by
  rw [cons_mem_nameTails_iff, mem_start_mul_nameTails, mem_one_mul]
  simp only [mem_start_mul_nameTails, beq_iff_eq]
  refine or_congr_right (or_congr_right ⟨?_, ?_⟩)
  · rintro ⟨hc, d, ds, rfl, hds, hs⟩
    exact ⟨ds, hc, hs, hds⟩
  · rintro ⟨ds, hc, hs, hds⟩
    exact ⟨hc, ':', ds, rfl, hds, hs⟩

theorem colon_cons_mem_nameTails (h : ':' :: s ∈ nameTails) :
    ∃ ds, s = ':' :: ds ∧ startsWith isNameStart ds = true ∧ ds ∈ nameTails := by
  have hchar : isNameChar ':' ≠ true := by decide
  obtain ⟨hgoes, -⟩ | ⟨hslash, -⟩ | ⟨ds, -, hds⟩ := cons_mem_nameTails.1 h
  · exact absurd hgoes hchar
  · cases hslash
  · exact ⟨ds, hds⟩

theorem startsWith_of_isPrefix {p : Char → Bool} (h : startsWith p s = true) (hs : s <+: cs) :
    startsWith p cs = true := by
  obtain ⟨rest, rfl⟩ := hs
  exact startsWith_append h rest

theorem startsWith_nameTail (h : startsWith isNameStart cs = true) :
    startsWith isNameStart (nameTail cs).1 = true := by
  cases cs with
  | nil => cases h
  | cons c cs =>
    rw [nameTail_goes (by rw [isNameChar_of_isNameStart h]; rfl)]
    exact h

/-- The tail of a name is the longest one at the start of a text. -/
theorem isLongest_nameTail (cs : List Char) : IsLongest nameTails cs (nameTail cs).1 where
  mem := by
    fun_induction nameTail cs with
    | case1 => exact nil_mem_nameTails
    | case2 c cs hgoes ih =>
      rw [Bool.or_eq_true, Bool.and_eq_true, decide_eq_true_iff] at hgoes
      refine cons_mem_nameTails.2 (hgoes.imp (fun hchar => ⟨hchar, ih⟩) ?_)
      rintro ⟨rfl, hstart⟩
      exact .inl ⟨rfl, startsWith_nameTail hstart, ih⟩
    | case3 ds hstart _ ih =>
      exact cons_mem_nameTails.2 (.inr (.inr ⟨_, rfl, rfl, startsWith_nameTail hstart, ih⟩))
    | case4 ds hstart _ => exact nil_mem_nameTails
    | case5 c cs _ _ => exact nil_mem_nameTails
  begins := ⟨_, nameTail_append cs⟩
  longest other hother hbegins := by
    fun_induction nameTail cs generalizing other with
    | case1 => rw [List.prefix_nil.1 hbegins]
    | case2 c cs hgoes ih =>
      cases other with
      | nil => exact Nat.zero_le _
      | cons d ds =>
        obtain ⟨rfl, hrest⟩ := List.cons_prefix_cons.1 hbegins
        refine Nat.succ_le_succ (ih ds ?_ hrest)
        obtain ⟨-, hds⟩ | ⟨-, -, hds⟩ | ⟨_, rfl, -⟩ := cons_mem_nameTails.1 hother
        · exact hds
        · exact hds
        · cases hgoes
    | case3 cs hstart _ ih =>
      cases other with
      | nil => exact Nat.zero_le _
      | cons d ds =>
        obtain ⟨rfl, hrest⟩ := List.cons_prefix_cons.1 hbegins
        obtain ⟨es, rfl, -, hes⟩ := colon_cons_mem_nameTails hother
        have hlater := ih es hes (List.cons_prefix_cons.1 hrest).2
        exact Nat.succ_le_succ (Nat.succ_le_succ hlater)
    | case4 cs hstart _ =>
      cases other with
      | nil => exact Nat.zero_le _
      | cons d ds =>
        obtain ⟨rfl, hrest⟩ := List.cons_prefix_cons.1 hbegins
        obtain ⟨es, rfl, hes, -⟩ := colon_cons_mem_nameTails hother
        exact absurd (startsWith_of_isPrefix hes (List.cons_prefix_cons.1 hrest).2) hstart
    | case5 c cs hcolons hstop =>
      cases other with
      | nil => exact Nat.zero_le _
      | cons d ds =>
        obtain ⟨rfl, hrest⟩ := List.cons_prefix_cons.1 hbegins
        obtain ⟨hgoes, -⟩ | ⟨rfl, hes, -⟩ | ⟨es, rfl, rfl, -⟩ := cons_mem_nameTails.1 hother
        · exact absurd (by rw [hgoes]; rfl) hstop
        · exact absurd (by simp [startsWith_of_isPrefix hes hrest]) hstop
        · obtain ⟨rest, rfl⟩ := hrest
          exact (hcolons _ rfl rfl).elim

/-- A name is the longest one at the start of the text. -/
theorem isLongest_name (h : isNameStart c = true) :
    IsLongest names (c :: cs) (c :: (nameTail cs).1) := by
  have hnone : ∀ u ∈ one (fun c => c == '\\'), ¬ u <+: c :: cs := by
    rintro _ ⟨d, hd, rfl⟩ hbegins
    obtain ⟨rfl, -⟩ := List.cons_prefix_cons.1 hbegins
    exact (isNameStart_ne h).1 (eq_of_beq hd)
  refine .mul (List.nil_append _) (isLongest_nil hnone) (.cons h (isLongest_nameTail cs)) ?_
  intro u hu v _ hbegins _
  refine ((Language.mem_add _ _ _).1 hu).resolve_right fun hslash => ?_
  exact hnone u hslash ((List.prefix_append u v).trans hbegins)

theorem isLongest_separated (h : startsWith isNameStart cs = true) :
    IsLongest names ('\\' :: cs) ('\\' :: (nameTail cs).1) := by
  cases cs with
  | nil => cases h
  | cons c cs =>
    have hstart : isNameStart c = true := h
    rw [nameTail_goes (by rw [isNameChar_of_isNameStart hstart]; rfl)]
    refine .mul List.singleton_append (.optional (isLongest_one rfl _))
      (.cons hstart (isLongest_nameTail cs)) ?_
    intro u hu v hv hbegins _
    obtain rfl | ⟨d, hd, rfl⟩ := (Language.mem_add _ _ _).1 hu
    · obtain ⟨d, ds, hd, -, rfl⟩ := mem_one_mul.1 hv
      obtain ⟨rfl, -⟩ := List.cons_prefix_cons.1 hbegins
      exact absurd rfl (isNameStart_ne hd).1
    · rw [eq_of_beq hd]

end Names

end Lexeme

end Docblock
