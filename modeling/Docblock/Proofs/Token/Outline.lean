import Docblock.Proofs.Token.Concatenation

/-!
# Outlines of windows

Readers look at kinds and texts of the tokens ahead and ask which tokens are adjacent. The outline
of a window says no more than that. Where a text stands in its input does not change its outline,
so the outline of texts put together is that of the one behind that of the other.
-/

namespace Docblock

/-- What readers see of a token; `glued` tells whether it is adjacent to the token before. -/
structure Glyph where
  kind : TokenKind
  text : String
  glued : Bool
deriving DecidableEq

namespace Glyph

/-- Glyphs that no name and no arguments go on with. -/
def IsQuiet (g : Glyph) : Prop := g.kind = .atSign ∨ g.kind = .other

theorem quiet_nil : ∀ g ∈ ([] : List Glyph).head?, g.IsQuiet := by simp

def ofTokens (before : Option Token) : List Token → List Glyph
  | [] => []
  | t :: rest => ⟨t.kind, t.text, before.any fun b => b.isAdjacent t⟩ :: ofTokens (some t) rest

theorem length_ofTokens (before : Option Token) (ts : List Token) :
    (ofTokens before ts).length = ts.length := by
  induction ts generalizing before with
  | nil => rfl
  | cons t rest ih => exact congrArg (· + 1) (ih (some t))

theorem exists_of_mem_ofTokens {before : Option Token} {ts : List Token} {g : Glyph}
    (hg : g ∈ ofTokens before ts) : ∃ t ∈ ts, g.kind = t.kind := by
  induction ts generalizing before with
  | nil => cases hg
  | cons t rest ih =>
    obtain rfl | hg := List.mem_cons.1 hg
    · exact ⟨t, List.mem_cons_self, rfl⟩
    · obtain ⟨u, hu, hkind⟩ := ih hg
      exact ⟨u, List.mem_cons_of_mem t hu, hkind⟩

theorem ofTokens_append (before : Option Token) (ts us : List Token) :
    ofTokens before (ts ++ us) = ofTokens before ts ++ ofTokens (ts.getLast?.or before) us := by
  induction ts generalizing before with
  | nil => rfl
  | cons t rest ih =>
    have hlast : (t :: rest).getLast?.or before = rest.getLast?.or (some t) := by
      rw [List.getLast?_cons]
      cases rest.getLast? <;> rfl
    rw [hlast]
    exact congrArg (List.cons _) (ih (some t))

/-- Two tokens before a text are as far away from two positions. -/
def SameGap (before other : Option Token) (p q : Position) : Prop :=
  ∀ n, before.any (fun b => b.stop == p.offset + n) = other.any (fun b => b.stop == q.offset + n)

theorem SameGap.step {before other : Option Token} {p q : Position} (h : SameGap before other p q)
    (c : Char) : SameGap before other (p.after c) (q.after c) := by
  intro n
  have hshifted := h (c.utf8Size + n)
  rw [← Nat.add_assoc, ← Nat.add_assoc] at hshifted
  rw [Token.offset_after, Token.offset_after]
  exact hshifted

/-- Where a text stands does not matter for its glyphs. -/
theorem ofTokens_scanFrom {before other : Option Token} {skip : Nat} {p q : Position}
    {cs : List Char} (h : SameGap before other p q) :
    ofTokens before (Token.scanFrom skip p cs) = ofTokens other (Token.scanFrom skip q cs) := by
  induction cs generalizing skip p q before other with
  | nil => rfl
  | cons c cs ih =>
    cases skip with
    | succ skip => exact ih (h.step c)
    | zero =>
      unfold Token.scanFrom
      dsimp only
      split
      · exact ih (h.step c)
      · have hglued : before.any (fun b => b.stop == p.offset) =
            other.any (fun b => b.stop == q.offset) := h 0
        have hlater : SameGap
            (some ⟨(Lexeme.read c cs).kind, String.ofList (Lexeme.read c cs).text, p,
              (p.afterAll (Lexeme.read c cs).source).offset⟩)
            (some ⟨(Lexeme.read c cs).kind, String.ofList (Lexeme.read c cs).text, q,
              (q.afterAll (Lexeme.read c cs).source).offset⟩) (p.after c) (q.after c) := by
          intro n
          rw [Option.any_some, Option.any_some, Token.offset_afterAll, Token.offset_afterAll,
            Token.offset_after, Token.offset_after, Bool.eq_iff_iff, beq_iff_eq, beq_iff_eq]
          dsimp only
          omega
        unfold ofTokens
        rw [ih hlater]
        exact congrArg (fun glued => Glyph.mk _ _ glued :: _) hglued

theorem stop_le_of_mem_scanFrom {p : Position} {cs : List Char} {t : Token}
    (ht : t ∈ Token.scanFrom 0 p cs) : t.stop ≤ (p.afterAll cs).offset := by
  obtain ⟨before, source, after, rfl, -, -, -, hstop⟩ := (Token.tiling_scanFrom p cs).slice ht
  rw [hstop, ← List.append_assoc, Position.afterAll_append p (before ++ source),
    Token.offset_afterAll _ after]
  exact Nat.le_add_right _ _

/-- Behind padding the glyphs of a text are those that it has alone. -/
theorem ofTokens_scanFrom_behind {before : Option Token} {p : Position} {c : Char} {cs : List Char}
    (hpadding : Lexeme.isPadding c = true) (h : ∀ t ∈ before, t.stop ≤ p.offset) :
    ofTokens before (Token.scanFrom 0 p (c :: cs)) =
      ofTokens none (Token.scanFrom 0 .start cs) := by
  rw [Token.scanFrom_padding hpadding]
  refine ofTokens_scanFrom fun n => ?_
  cases before with
  | none => rfl
  | some t =>
    have hstop := h t rfl
    have hsize := c.utf8Size_pos
    rw [Option.any_some, Option.any_none, Token.offset_after, beq_eq_false_iff_ne]
    omega

def ofText (cs : List Char) : List Glyph := ofTokens none (Token.scanFrom 0 .start cs)

theorem stops_of_head {more : List Char} (h : ∀ c ∈ more.head?, DocText.isFrame c = true) :
    Lexeme.Stops more := by
  have hcases : ∀ c, more.head? = some c → c = '*' ∨ c = ' ' ∨ c = '/' := by
    intro c hc
    have hframe := h c hc
    simpa [DocText.isFrame, or_assoc] using hframe
  constructor
  · intro c hc
    obtain rfl | rfl | rfl := hcases c hc <;> decide
  · intro c hc
    obtain rfl | rfl | rfl := hcases c hc <;> decide
  · intro c hc
    obtain rfl | rfl | rfl := hcases c hc <;> decide

/-- Texts with a blank between them have the glyphs of both. -/
theorem ofText_append_blank {cs : List Char}
    (hclosed : ∀ t ∈ Token.scanFrom 0 .start cs, ¬ t.IsOpenQuote) (ds : List Char) :
    ofText (cs ++ ' ' :: ds) = ofText cs ++ ofText ds := by
  have hstops : Lexeme.Stops (' ' :: ds) := stops_of_head (by simp [DocText.isFrame])
  unfold ofText
  rw [Token.scanFrom_append hstops fun _ => hclosed, ofTokens_append,
    ofTokens_scanFrom_behind (by decide)]
  intro t ht
  rw [Option.or_none] at ht
  exact stop_le_of_mem_scanFrom (List.mem_of_getLast? ht)

/-- The frame behind a text adds slashes at most. -/
theorem ofText_append_frame (cs : List Char) {frame : List Char}
    (hframe : ∀ c ∈ frame, DocText.isFrame c = true) :
    ∃ slashes, ofText (cs ++ frame) = ofText cs ++ slashes ∧ ∀ g ∈ slashes, g.kind = .other := by
  have hstops : Lexeme.Stops frame := stops_of_head fun c hc =>
    hframe c (List.mem_of_mem_head? hc)
  have hquote : '"' ∉ frame := fun hmem => absurd (hframe '"' hmem) (by decide)
  unfold ofText
  rw [Token.scanFrom_append hstops (absurd · hquote), ofTokens_append]
  refine ⟨_, rfl, fun g hg => ?_⟩
  obtain ⟨t, ht, hkind⟩ := exists_of_mem_ofTokens hg
  rw [hkind]
  exact (Token.slash_of_mem_scanFrom hframe ht).1

end Glyph

def Window.outline (w : Window) : List Glyph := Glyph.ofTokens w.behind w.ahead

end Docblock
