import Docblock.Proofs.Token.LongestMatch
import Mathlib.Data.List.Induction

/-!
# Positions in a text

The line of a token is one more than the number of line breaks in front of its offset, and its
column is one more than the number of characters between the last of them and the offset. What the
characters in front belong to makes no difference: strings may go over several lines, and a quote
that nothing closes is one character like any other.
-/

namespace Docblock

namespace Position

def charsBefore (offset : Nat) : List Char → List Char
  | [] => []
  | c :: cs => if c.utf8Size ≤ offset then c :: charsBefore (offset - c.utf8Size) cs else []

def lastLine (cs : List Char) : List Char :=
  (cs.reverse.takeWhile fun c => c != '\n').reverse

/-- The position at an offset of a text. -/
def locate (text : List Char) (offset : Nat) : Position where
  offset := offset
  line := 1 + (charsBefore offset text).count '\n'
  column := 1 + (lastLine (charsBefore offset text)).length

theorem charsBefore_size (before after : List Char) :
    charsBefore (String.ofList before).utf8ByteSize (before ++ after) = before := by
  induction before with
  | nil =>
    cases after with
    | nil => rfl
    | cons c after =>
      have hsize := c.utf8Size_pos
      exact if_neg (by simp; omega)
  | cons c before ih =>
    have hsize : (String.ofList (c :: before)).utf8ByteSize =
        c.utf8Size + (String.ofList before).utf8ByteSize := by simp
    rw [hsize, List.cons_append, charsBefore, if_pos (Nat.le_add_right _ _),
      Nat.add_sub_cancel_left, ih]

theorem lastLine_concat (cs : List Char) (c : Char) :
    lastLine (cs ++ [c]) = if c = '\n' then [] else lastLine cs ++ [c] := by
  by_cases hbreak : c = '\n' <;> simp [lastLine, hbreak]

theorem afterAll_concat (p : Position) (cs : List Char) (c : Char) :
    p.afterAll (cs ++ [c]) = (p.afterAll cs).after c :=
  afterAll_append p cs [c]

theorem line_afterAll (cs : List Char) : (start.afterAll cs).line = 1 + cs.count '\n' := by
  induction cs using List.reverseRecOn with
  | nil => rfl
  | append_singleton cs c ih =>
    rw [afterAll_concat, List.count_append]
    by_cases hbreak : c = '\n'
    · simp [after, hbreak, ih, Nat.add_assoc]
    · simp [after, hbreak, ih]

theorem column_afterAll (cs : List Char) :
    (start.afterAll cs).column = 1 + (lastLine cs).length := by
  induction cs using List.reverseRecOn with
  | nil => rfl
  | append_singleton cs c ih =>
    rw [afterAll_concat, lastLine_concat]
    by_cases hbreak : c = '\n'
    · simp [after, hbreak]
    · simp [after, hbreak, ih, Nat.add_assoc]

/-- Going over the characters in front of an offset leads to the position at the offset. -/
theorem afterAll_eq_locate (before after : List Char) : start.afterAll before =
    locate (before ++ after) (String.ofList before).utf8ByteSize := by
  have hoffset : (start.afterAll before).offset = (String.ofList before).utf8ByteSize :=
    (Token.offset_afterAll start before).trans (Nat.zero_add _)
  unfold locate
  rw [charsBefore_size, ← line_afterAll, ← column_afterAll, ← hoffset]

end Position

namespace Token

open Position

/-- A token is the lexeme that starts at its offset, and its position is the one at that offset. -/
theorem start_eq_locate {input : String} {t : Token} (ht : t ∈ scan input) :
    t.start = locate input.toList t.start.offset ∧
      ∃ c rest, input.toList = charsBefore t.start.offset input.toList ++ c :: rest ∧
        t = ofLexeme t.start (Lexeme.read c rest) := by
  obtain ⟨before, c, rest, hinput, hread⟩ := exists_read_of_mem_scanFrom ht
  have hstart : t.start = Position.start.afterAll before := by rw [hread]; rfl
  have hlocated := afterAll_eq_locate before (c :: rest)
  rw [← hinput, ← hstart] at hlocated
  have hoffset : t.start.offset = (String.ofList before).utf8ByteSize :=
    congrArg Position.offset hlocated
  rw [← hoffset] at hlocated
  refine ⟨hlocated, c, rest, ?_, ?_⟩
  · rw [hoffset, hinput, charsBefore_size]
  · rw [hstart]
    exact hread

/-- Behind a string that goes over two lines and a quote that nothing closes. -/
theorem start_eq_locate_unclosed :
    (⟨16, 3, 4⟩ : Position) = locate "é \"ü\nb\" \"c\n * d".toList 16 ∧
      ∃ c rest, "é \"ü\nb\" \"c\n * d".toList =
        charsBefore 16 "é \"ü\nb\" \"c\n * d".toList ++ c :: rest ∧
        (⟨.identifier, "d", ⟨16, 3, 4⟩, 17⟩ : Token) =
          ofLexeme ⟨16, 3, 4⟩ (Lexeme.read c rest) := by
  have hmem : ⟨.identifier, "d", ⟨16, 3, 4⟩, 17⟩ ∈ scan "é \"ü\nb\" \"c\n * d" := by
    decide +kernel
  exact start_eq_locate hmem

end Token

end Docblock
