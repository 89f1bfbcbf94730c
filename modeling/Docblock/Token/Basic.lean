/-!
# Tokens

A token has a kind, a text and a place in the input. The text of a string token is its content
with the quotes and escapes removed. Offsets count bytes of UTF-8, columns count characters.
-/

namespace Docblock

inductive TokenKind where
  | atSign
  /-- A plain name, possibly with `::` inside. -/
  | identifier
  /-- A name with a separator in front or inside. -/
  | qualifiedName
  /-- A separator that no name follows. -/
  | separator
  | string
  | integer
  | float
  | trueWord
  | falseWord
  | nullWord
  | openParen
  | closeParen
  | openBrace
  | closeBrace
  | comma
  | colon
  | equals
  /-- Any other single character. -/
  | other
deriving Repr, DecidableEq, Inhabited

namespace TokenKind

/-- Kinds that may be part of a class name. -/
def isClassPart : TokenKind → Bool
  | identifier | qualifiedName | trueWord | falseWord | nullWord => true
  | _ => false

/-- Kinds that name a constant. -/
def isName : TokenKind → Bool
  | identifier | qualifiedName => true
  | _ => false

/-- The kind in error texts. -/
def describe : TokenKind → String
  | atSign => "'@'"
  | identifier => "identifier"
  | qualifiedName => "qualified name"
  | separator => "namespace separator"
  | string => "string"
  | integer => "integer"
  | float => "float"
  | trueWord => "true"
  | falseWord => "false"
  | nullWord => "null"
  | openParen => "'('"
  | closeParen => "')'"
  | openBrace => "'\x7b'"
  | closeBrace => "'\x7d'"
  | comma => "','"
  | colon => "':'"
  | equals => "'='"
  | other => "character"

theorem isClassPart_of_isName {kind : TokenKind} (h : kind.isName = true) :
    kind.isClassPart = true := by
  cases kind <;> simp_all [isName, isClassPart]

end TokenKind

structure Position where
  offset : Nat
  line : Nat
  column : Nat
deriving Repr, DecidableEq, Inhabited

namespace Position

def start : Position := ⟨0, 1, 1⟩

/-- The position behind a character. -/
def after (p : Position) (c : Char) : Position :=
  if c = '\n' then ⟨p.offset + c.utf8Size, p.line + 1, 1⟩
  else ⟨p.offset + c.utf8Size, p.line, p.column + 1⟩

def afterAll (p : Position) (cs : List Char) : Position := cs.foldl after p

@[simp] theorem afterAll_nil (p : Position) : p.afterAll [] = p := rfl

@[simp] theorem afterAll_cons (p : Position) (c : Char) (cs : List Char) :
    p.afterAll (c :: cs) = (p.after c).afterAll cs := rfl

theorem afterAll_append (p : Position) (cs ds : List Char) :
    p.afterAll (cs ++ ds) = (p.afterAll cs).afterAll ds := List.foldl_append ..

end Position

structure Token where
  kind : TokenKind
  text : String
  start : Position
  /-- The offset behind the token. -/
  stop : Nat
deriving Repr, DecidableEq, Inhabited

namespace Token

/-- Whether a token starts exactly where this one ends. -/
def isAdjacent (t next : Token) : Bool := t.stop == next.start.offset

end Token

end Docblock
