import Docblock.Token.Window
import Mathlib.Data.List.ReduceOption
import Mathlib.Logic.Function.Iterate

/-!
# A cursor shows a window over the tokens

Two numbers settle what a cursor shows: the tokens of the latest input are counted, and so are the
moves since. The first move opens the window in front of the first token, each further one passes a
token, and at the end of the input moves change nothing. Hence the tokens ahead after the moves are
the tokens of the input, each once and in their order.
-/

namespace Docblock

namespace Window

variable {tokens : List Token} {j : Nat}

def inFrontOf (tokens : List Token) (j : Nat) : Window where
  behind := if j = 0 then none else tokens[j - 1]?
  ahead := tokens.drop j

theorem lookahead_inFrontOf : (inFrontOf tokens j).lookahead = tokens[j]? := List.head?_drop

theorem glimpse_inFrontOf : (inFrontOf tokens j).glimpse = tokens[j + 1]? := List.getElem?_drop

theorem isEmpty_ahead_inFrontOf :
    (inFrontOf tokens j).ahead.isEmpty = !decide (j < tokens.length) := by
  rw [Bool.eq_iff_iff, List.isEmpty_iff, Bool.not_eq_true', decide_eq_false_iff_not]
  exact List.drop_eq_nil_iff.trans Nat.not_lt.symm

theorem advance_inFrontOf (hj : j ≤ tokens.length) :
    (inFrontOf tokens j).advance = inFrontOf tokens (min (j + 1) tokens.length) := by
  obtain hlt | rfl := Nat.lt_or_eq_of_le hj
  · rw [Nat.min_eq_left hlt]
    unfold inFrontOf advance
    rw [List.drop_eq_getElem_cons hlt]
    simp [hlt]
  · rw [Nat.min_eq_right (Nat.le_succ _)]
    unfold inFrontOf advance
    simp

theorem iterate_advance (tokens : List Token) (k : Nat) :
    advance^[k] (ofTokens tokens) = inFrontOf tokens (min k tokens.length) := by
  induction k with
  | zero => simp [inFrontOf, ofTokens]
  | succ k ih =>
    rw [Function.iterate_succ_apply', ih, advance_inFrontOf (Nat.min_le_right _ _)]
    congr 1
    omega

end Window

namespace Cursor

inductive Call where
  | setInput (input : String)
  | move
  | lookahead
  | token
  | glimpse
  | isNext (kind : TokenKind)
  | isNextAny (kinds : List TokenKind)
deriving DecidableEq

inductive Answer where
  | none
  | bool (b : Bool)
  | token (t : Option Token)
deriving DecidableEq

namespace Call

def perform (c : Cursor) : Call → Cursor
  | setInput input => ofInput input
  | move => c.move.1
  | lookahead | token | glimpse | isNext _ | isNextAny _ => c

def answer (c : Cursor) : Call → Answer
  | setInput _ => .none
  | move => .bool c.move.2
  | lookahead => .token c.lookahead
  | token => .token c.token
  | glimpse => .token c.glimpse
  | isNext kind => .bool (c.isNext kind)
  | isNextAny kinds => .bool (c.isNextAny kinds)

end Call

def after (c : Cursor) (calls : List Call) : Cursor := calls.foldl Call.perform c

def answers (c : Cursor) : List Call → List Answer
  | [] => []
  | call :: calls => call.answer c :: (call.perform c).answers calls

def lookaheads (c : Cursor) : List Call → List (Option Token)
  | [] => []
  | call :: calls =>
    (if call = .move then [c.move.1.lookahead] else []) ++ (call.perform c).lookaheads calls

/-- The tokens of the latest input and the number of moves since. -/
structure Progress where
  tokens : List Token
  moves : Nat

namespace Progress

variable {p : Progress}

def start : Progress := ⟨[], 0⟩

def perform (p : Progress) : Call → Progress
  | .setInput input => ⟨Token.scan input, 0⟩
  | .move => ⟨p.tokens, p.moves + 1⟩
  | .lookahead | .token | .glimpse | .isNext _ | .isNextAny _ => p

def after (p : Progress) (calls : List Call) : Progress := calls.foldl perform p

@[simp] theorem tokens_move (p : Progress) : (p.perform .move).tokens = p.tokens := rfl

@[simp] theorem moves_move (p : Progress) : (p.perform .move).moves = p.moves + 1 := rfl

def index (p : Progress) : Nat := min (p.moves - 1) p.tokens.length

def lookahead (p : Progress) : Option Token := if p.moves = 0 then none else p.tokens[p.index]?

def token (p : Progress) : Option Token :=
  if p.moves = 0 ∨ p.index = 0 then none else p.tokens[p.index - 1]?

def glimpse (p : Progress) : Option Token :=
  if p.moves = 0 then p.tokens[0]? else p.tokens[p.index + 1]?

def answer (p : Progress) : Call → Answer
  | .setInput _ => .none
  | .move => .bool (decide ((p.perform .move).index < p.tokens.length))
  | .lookahead => .token p.lookahead
  | .token => .token p.token
  | .glimpse => .token p.glimpse
  | .isNext kind => .bool (p.lookahead.any fun t => t.kind == kind)
  | .isNextAny kinds => .bool (p.lookahead.any fun t => kinds.contains t.kind)

def answers (p : Progress) : List Call → List Answer
  | [] => []
  | call :: calls => p.answer call :: (p.perform call).answers calls

def cursor (p : Progress) : Cursor where
  window := Window.advance^[p.moves - 1] (.ofTokens p.tokens)
  started := decide (p.moves ≠ 0)

@[simp] theorem started_cursor (p : Progress) : p.cursor.started = decide (p.moves ≠ 0) := rfl

theorem window_cursor (p : Progress) : p.cursor.window = .inFrontOf p.tokens p.index :=
  Window.iterate_advance _ _

theorem lookahead_cursor (p : Progress) : p.cursor.lookahead = p.lookahead := by
  unfold Cursor.lookahead lookahead
  rw [window_cursor, Window.lookahead_inFrontOf]
  simp [cursor, ite_not]

theorem token_cursor (p : Progress) : p.cursor.token = p.token := by
  unfold Cursor.token token
  rw [window_cursor]
  by_cases hmoves : p.moves = 0
  · simp [cursor, hmoves]
  · simp [cursor, hmoves, Window.inFrontOf]

theorem glimpse_cursor (p : Progress) : p.cursor.glimpse = p.glimpse := by
  unfold Cursor.glimpse glimpse
  rw [window_cursor, Window.lookahead_inFrontOf, Window.glimpse_inFrontOf]
  by_cases hmoves : p.moves = 0
  · simp [cursor, hmoves, index]
  · simp [cursor, hmoves]

/-- The first move opens the window, any other passes a token. -/
theorem window_move (p : Progress) :
    (if p.cursor.started then p.cursor.window.advance else p.cursor.window) =
      (p.perform .move).cursor.window := by
  cases hmoves : p.moves with
  | zero => simp [cursor, hmoves]
  | succ k =>
    have hpass := Function.iterate_succ_apply' Window.advance k (.ofTokens p.tokens)
    simp [cursor, hmoves, hpass]

theorem move_cursor (p : Progress) : p.cursor.move =
    ((p.perform .move).cursor, decide ((p.perform .move).index < p.tokens.length)) := by
  have hahead : (p.perform .move).cursor.window.ahead.isEmpty =
      !decide ((p.perform .move).index < p.tokens.length) := by
    rw [window_cursor, Window.isEmpty_ahead_inFrontOf, tokens_move]
  unfold Cursor.move
  dsimp only
  rw [window_move, hahead, Bool.not_not]
  rfl

theorem perform_cursor (p : Progress) (call : Call) :
    call.perform p.cursor = (p.perform call).cursor := by
  cases call with
  | move => exact congrArg Prod.fst p.move_cursor
  | _ => rfl

theorem answer_cursor (p : Progress) (call : Call) : call.answer p.cursor = p.answer call := by
  cases call with
  | setInput input => rfl
  | move => exact congrArg (fun moved => Answer.bool moved.2) p.move_cursor
  | lookahead => exact congrArg Answer.token p.lookahead_cursor
  | token => exact congrArg Answer.token p.token_cursor
  | glimpse => exact congrArg Answer.token p.glimpse_cursor
  | isNext kind =>
    unfold Call.answer Cursor.isNext
    rw [lookahead_cursor]
    rfl
  | isNextAny kinds =>
    unfold Call.answer Cursor.isNextAny
    rw [lookahead_cursor]
    rfl

theorem after_cursor (p : Progress) (calls : List Call) :
    p.cursor.after calls = (p.after calls).cursor := by
  induction calls generalizing p with
  | nil => rfl
  | cons call calls ih =>
    change (call.perform p.cursor).after calls = ((p.perform call).after calls).cursor
    rw [perform_cursor, ih]

theorem answers_cursor (p : Progress) (calls : List Call) :
    p.cursor.answers calls = p.answers calls := by
  induction calls generalizing p with
  | nil => rfl
  | cons call calls ih =>
    unfold Cursor.answers answers
    rw [answer_cursor, perform_cursor, ih]

/-- Behind the end of the input a move changes nothing. -/
theorem move_cursor_of_lt (h : p.tokens.length < p.moves) : p.cursor.move = (p.cursor, false) := by
  have hindex : (p.perform .move).index = p.index := by
    unfold index
    simp only [moves_move, tokens_move]
    omega
  have hwindow : (p.perform .move).cursor.window = p.cursor.window := by
    rw [window_cursor, window_cursor, hindex, tokens_move]
  have hcursor : (p.perform .move).cursor = p.cursor := by
    rw [Cursor.mk.injEq]
    refine ⟨hwindow, ?_⟩
    simp [Nat.ne_zero_of_lt h]
  have hend : ¬ p.index < p.tokens.length := by
    unfold index
    omega
  rw [move_cursor, hcursor, hindex, decide_eq_false hend]

/-- Until another input is set, the moves have the next tokens ahead, and then none. -/
theorem lookaheads_cursor (p : Progress) {calls : List Call}
    (h : ∀ input, .setInput input ∉ calls) :
    p.cursor.lookaheads calls = (List.range (calls.count .move)).map fun i =>
      p.tokens[p.moves + i]? := by
  induction calls generalizing p with
  | nil => rfl
  | cons call calls ih =>
    simp only [List.mem_cons, not_or] at h
    unfold Cursor.lookaheads
    rw [perform_cursor, ih _ fun input => (h input).2]
    by_cases hmove : call = .move
    · subst hmove
      have hahead : p.cursor.move.1.lookahead = p.tokens[p.moves]? := by
        rw [move_cursor, lookahead_cursor]
        unfold lookahead index perform
        obtain hle | hlt := Nat.le_total p.moves p.tokens.length
        · simp [hle]
        · simp [hlt]
      have hindex (i : Nat) : (p.perform .move).moves + i = p.moves + (i + 1) :=
        Nat.add_right_comm p.moves 1 i
      rw [if_pos rfl, hahead, List.count_cons_self, List.range_succ_eq_map]
      simp only [hindex]
      simp
    · rw [if_neg hmove, List.count_cons_of_ne hmove]
      cases call with
      | setInput input => exact absurd rfl (h input).1
      | move => exact absurd rfl hmove
      | _ => rfl

end Progress

theorem reduceOption_map_getElem? (tokens : List Token) (k : Nat) :
    ((List.range k).map fun i => tokens[i]?).reduceOption = tokens.take k := by
  induction k with
  | zero => rfl
  | succ k ih =>
    rw [List.range_succ, List.map_append, List.reduceOption_append, ih, List.take_add_one]
    rfl

/-- Whatever the calls on a cursor, the tokens of the latest input and the number of moves since
settle its answers and the window that it stands at. The moves after an input have its tokens ahead,
each once and in their order, and behind the end of the input a move changes nothing. -/
theorem answers_eq_progress :
    (∀ calls : List Call, idle.answers calls = Progress.start.answers calls ∧
      idle.after calls = (Progress.start.after calls).cursor) ∧
    (∀ (input : String) (calls : List Call), (∀ other, .setInput other ∉ calls) →
      ((ofInput input).lookaheads calls).reduceOption =
        (Token.scan input).take (calls.count .move)) ∧
    ∀ calls : List Call,
      (Progress.start.after calls).tokens.length < (Progress.start.after calls).moves →
        (idle.after calls).move = (idle.after calls, false) := by
  have hafter (calls : List Call) : idle.after calls = (Progress.start.after calls).cursor :=
    Progress.after_cursor .start calls
  refine ⟨fun calls => ⟨Progress.answers_cursor .start calls, hafter calls⟩, ?_, ?_⟩
  · intro input calls hcalls
    have hahead := Progress.lookaheads_cursor ⟨Token.scan input, 0⟩ hcalls
    simp only [Nat.zero_add] at hahead
    rw [← reduceOption_map_getElem?, ← hahead]
    rfl
  · intro calls hend
    rw [hafter]
    exact Progress.move_cursor_of_lt hend

/-- A cursor that is used for a second input while it stands inside the first one. -/
theorem answers_eq_progress_reused :
    ((ofInput "@A").lookaheads [.move, .glimpse, .move, .move]).reduceOption = Token.scan "@A" ∧
    (idle.after [.setInput "@B", .move, .setInput "", .move]).move =
      (idle.after [.setInput "@B", .move, .setInput "", .move], false) := by
  have hahead := answers_eq_progress.2.1 "@A" [.move, .glimpse, .move, .move] (by simp)
  exact ⟨hahead, answers_eq_progress.2.2 _ (by decide)⟩

end Cursor

end Docblock
