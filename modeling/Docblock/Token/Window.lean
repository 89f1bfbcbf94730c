import Docblock.Token.Scan

/-!
# Windows on a token list

A window stands between two tokens of a list. It shows the token just passed, the token ahead and
the one after it. A cursor opens a window on an input at its first move.
-/

namespace Docblock

structure Window where
  /-- The token just passed. -/
  behind : Option Token
  ahead : List Token
deriving Repr, DecidableEq, Inhabited

namespace Window

def ofTokens (tokens : List Token) : Window := ⟨none, tokens⟩

def lookahead (w : Window) : Option Token := w.ahead.head?

/-- The token after the one ahead. -/
def glimpse (w : Window) : Option Token := w.ahead[1]?

/-- Pass one token; at the end nothing changes. -/
def advance (w : Window) : Window :=
  match w.ahead with
  | [] => w
  | t :: rest => ⟨some t, rest⟩

def isNext (w : Window) (kind : TokenKind) : Bool :=
  w.lookahead.any fun t => t.kind == kind

def isNextAny (w : Window) (kinds : List TokenKind) : Bool :=
  w.lookahead.any fun t => kinds.contains t.kind

@[simp] theorem advance_nil (behind : Option Token) : advance ⟨behind, []⟩ = ⟨behind, []⟩ := rfl

@[simp] theorem advance_cons (behind : Option Token) (t : Token) (rest : List Token) :
    advance ⟨behind, t :: rest⟩ = ⟨some t, rest⟩ := rfl

end Window

structure Cursor where
  window : Window
  started : Bool
deriving Repr, DecidableEq, Inhabited

namespace Cursor

/-- A cursor on no input at all. -/
def idle : Cursor := ⟨.ofTokens [], false⟩

def ofInput (input : String) : Cursor := ⟨.ofTokens (Token.scan input), false⟩

/-- Move by one token: the cursor and whether a token is ahead now. The first move opens the
window. -/
def move (c : Cursor) : Cursor × Bool :=
  let window := if c.started then c.window.advance else c.window
  (⟨window, true⟩, !window.ahead.isEmpty)

def lookahead (c : Cursor) : Option Token := if c.started then c.window.lookahead else none

def token (c : Cursor) : Option Token := if c.started then c.window.behind else none

def glimpse (c : Cursor) : Option Token :=
  if c.started then c.window.glimpse else c.window.lookahead

def isNext (c : Cursor) (kind : TokenKind) : Bool := c.lookahead.any fun t => t.kind == kind

def isNextAny (c : Cursor) (kinds : List TokenKind) : Bool :=
  c.lookahead.any fun t => kinds.contains t.kind

end Cursor

end Docblock
