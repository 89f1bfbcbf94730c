import Docblock.Decimal.Reading
import Docblock.Text.LowerCase
import Docblock.Token.Basic

/-!
# Lexemes

The lexeme at the start of an input is the longest number, name or string that begins there, or a
single character. Every reader splits its input into what it takes and what it leaves; nothing is
lost between the two.
-/

namespace Docblock

open Text (isBlank isLetter isNumeral)

/-- A lexeme: its kind, the text it denotes, the characters it takes and those it leaves. -/
structure Lexeme where
  kind : TokenKind
  text : List Char
  source : List Char
  rest : List Char
deriving Repr, DecidableEq

namespace Lexeme

/-- Blanks and stars separate tokens. -/
def isPadding (c : Char) : Bool := isBlank c || c == '*'

def isNameStart (c : Char) : Bool := c == '_' || isLetter c

def isNameChar (c : Char) : Bool := c == '_' || isLetter c || isNumeral c

def startsWith (p : Char → Bool) : List Char → Bool
  | [] => false
  | c :: _ => p c

def digits (cs : List Char) : List Char × List Char :=
  (cs.takeWhile Char.isDigit, cs.dropWhile Char.isDigit)

def sign : List Char → List Char × List Char
  | [] => ([], [])
  | c :: cs => if Decimal.isSign c then ([c], cs) else ([], c :: cs)

/-- A point and the digits behind it. -/
def fraction : List Char → List Char × List Char
  | [] => ([], [])
  | c :: cs =>
    if c = '.' && startsWith Char.isDigit cs then (c :: (digits cs).1, (digits cs).2)
    else ([], c :: cs)

/-- An exponent mark, a sign or none, and digits. -/
def exponent : List Char → List Char × List Char
  | [] => ([], [])
  | c :: cs =>
    if Decimal.isExponentMark c && startsWith Char.isDigit (sign cs).2 then
      (c :: ((sign cs).1 ++ (digits (sign cs).2).1), (digits (sign cs).2).2)
    else ([], c :: cs)

def number (cs : List Char) : Lexeme :=
  let (s, afterSign) := sign cs
  let (whole, afterWhole) := digits afterSign
  let (part, afterPart) := fraction afterWhole
  let (power, rest) := exponent afterPart
  let source := s ++ whole ++ part ++ power
  ⟨if part.isEmpty && power.isEmpty then .integer else .float, source, source, rest⟩

/-- The characters that continue a name: name characters, and separators or double colons that
another part of the name follows. -/
def nameTail : List Char → List Char × List Char
  | [] => ([], [])
  | c :: cs =>
    if isNameChar c || (c = '\\' && startsWith isNameStart cs) then
      (c :: (nameTail cs).1, (nameTail cs).2)
    else
      match c, cs with
      | ':', ':' :: ds =>
        if startsWith isNameStart ds then (':' :: ':' :: (nameTail ds).1, (nameTail ds).2)
        else ([], ':' :: ':' :: ds)
      | c, cs => ([], c :: cs)

def nameKind (source : List Char) : TokenKind :=
  if source.contains '\\' then .qualifiedName
  else
    match Text.lower (String.ofList source) with
    | "true" => .trueWord
    | "false" => .falseWord
    | "null" => .nullWord
    | _ => .identifier

/-- The name that starts with `c`. -/
def name (c : Char) (cs : List Char) : Lexeme :=
  let source := c :: (nameTail cs).1
  ⟨nameKind source, source, source, (nameTail cs).2⟩

/-- Content, source and rest of a string behind its opening quote. A backslash hides a quote or a
backslash; before anything else it stands for itself. -/
def stringTail : List Char → Option (List Char × List Char × List Char)
  | [] => none
  | c :: cs =>
    if c = '"' then some ([], ['"'], cs)
    else if c = '\\' then
      match cs with
      | [] => none
      | d :: ds =>
        if d = '"' || d = '\\' then
          (stringTail ds).map fun (text, source, rest) => (d :: text, c :: d :: source, rest)
        else (stringTail (d :: ds)).map fun (text, source, rest) => (c :: text, c :: source, rest)
    else (stringTail cs).map fun (text, source, rest) => (c :: text, c :: source, rest)

def single (kind : TokenKind) (c : Char) (cs : List Char) : Lexeme := ⟨kind, [c], [c], cs⟩

/-- A string, or its quote alone if no other quote closes it. -/
def string (cs : List Char) : Lexeme :=
  match stringTail cs with
  | some (text, source, rest) => ⟨.string, text, '"' :: source, rest⟩
  | none => single .other '"' cs

/-- The lexeme that starts with `c`, where `c` is no padding. -/
def read (c : Char) (cs : List Char) : Lexeme :=
  match c with
  | '@' => single .atSign c cs
  | '(' => single .openParen c cs
  | ')' => single .closeParen c cs
  | '{' => single .openBrace c cs
  | '}' => single .closeBrace c cs
  | ',' => single .comma c cs
  | ':' => single .colon c cs
  | '=' => single .equals c cs
  | '"' => string cs
  | '\\' => if startsWith isNameStart cs then name c cs else single .separator c cs
  | c =>
    if c.isDigit || (Decimal.isSign c && startsWith Char.isDigit cs) then number (c :: cs)
    else if isNameStart c then name c cs
    else single .other c cs

theorem digits_append (cs : List Char) : (digits cs).1 ++ (digits cs).2 = cs :=
  List.takeWhile_append_dropWhile

theorem sign_append (cs : List Char) : (sign cs).1 ++ (sign cs).2 = cs := by
  cases cs with
  | nil => rfl
  | cons c cs => by_cases h : Decimal.isSign c <;> simp [sign, h]

theorem fraction_append (cs : List Char) : (fraction cs).1 ++ (fraction cs).2 = cs := by
  cases cs with
  | nil => rfl
  | cons c cs =>
    by_cases h : (c = '.' && startsWith Char.isDigit cs) = true
    · simp only [fraction, h, if_true, List.cons_append, digits_append]
    · simp only [fraction, h, if_false, List.nil_append, Bool.false_eq_true]

theorem exponent_append (cs : List Char) : (exponent cs).1 ++ (exponent cs).2 = cs := by
  cases cs with
  | nil => rfl
  | cons c cs =>
    by_cases h : (Decimal.isExponentMark c && startsWith Char.isDigit (sign cs).2) = true
    · simp only [exponent, h, if_true, List.cons_append, List.append_assoc, digits_append,
        sign_append]
    · simp only [exponent, h, if_false, List.nil_append, Bool.false_eq_true]

theorem number_append (cs : List Char) : (number cs).source ++ (number cs).rest = cs := by
  simp only [number, List.append_assoc, exponent_append, fraction_append, digits_append,
    sign_append]

theorem nameTail_append (cs : List Char) : (nameTail cs).1 ++ (nameTail cs).2 = cs := by
  fun_induction nameTail cs <;> simp_all

theorem stringTail_append {cs text source rest : List Char}
    (h : stringTail cs = some (text, source, rest)) : source ++ rest = cs := by
  fun_induction stringTail cs generalizing text source with
  | case1 => simp at h
  | case2 cs =>
    simp only [Option.some.injEq, Prod.mk.injEq] at h
    obtain ⟨-, rfl, rfl⟩ := h
    rfl
  | case3 => simp at h
  | case4 d ds _ _ ih | case5 d ds _ _ ih | case6 c cs _ _ ih =>
    obtain ⟨⟨t, s, r⟩, found, same⟩ := Option.map_eq_some_iff.1 h
    simp only [Prod.mk.injEq] at same
    obtain ⟨-, rfl, rfl⟩ := same
    simp [ih found]

theorem string_append (cs : List Char) : (string cs).source ++ (string cs).rest = '"' :: cs := by
  unfold string
  split
  · next h => simp [stringTail_append h]
  · rfl

theorem name_append (c : Char) (cs : List Char) :
    (name c cs).source ++ (name c cs).rest = c :: cs := by
  simp [name, nameTail_append]

/-- A lexeme and what it leaves make up the input. -/
theorem read_append (c : Char) (cs : List Char) :
    (read c cs).source ++ (read c cs).rest = c :: cs := by
  unfold read
  split
  case h_9 => exact string_append cs
  case h_10 =>
    split
    · exact name_append _ cs
    · rfl
  case h_11 =>
    split
    · exact number_append _
    · split
      · exact name_append _ cs
      · rfl
  all_goals rfl

end Lexeme

end Docblock
