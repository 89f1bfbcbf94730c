import Docblock.Schema.Memory
import Docblock.Token.Window

/-!
# Readers

A reader takes tokens from a window. It fails at the token ahead, and it consults the classes, the
settings and the schemas of its scope.
-/

namespace Docblock

/-- Where a text is read: the classes, the settings, the words that say where it came from, and the
source of schemas. -/
structure Scope where
  registry : Registry
  settings : Settings
  context : String
  schemaOf : String → Lookup (Option AnnotationSchema)

abbrev Reading := StateT Window Lookup

namespace Reading

variable {α : Type}

/-- How many levels of collections and annotations a value may have. -/
def maxNesting : Nat := 64

def unexpected (scope : Scope) (expected : Expectation) : Reading α := do
  let w ← get
  throw (.unexpected expected (w.lookahead.map Found.ofToken) scope.context)

def isNext (kind : TokenKind) : Reading Bool := return (← get).isNext kind

/-- Pass the token ahead. -/
def skip : Reading Unit := modify Window.advance

/-- Take the token ahead, which must be of one of the kinds. -/
def expectAny (scope : Scope) (kinds : List TokenKind) : Reading Token := do
  match (← get).lookahead with
  | some t =>
    if kinds.contains t.kind then
      skip
      return t
    else unexpected scope (.kinds kinds)
  | none => unexpected scope (.kinds kinds)

def expect (scope : Scope) (kind : TokenKind) : Reading Token := expectAny scope [kind]

/-- The items behind further commas. A comma may stand before the closing token. -/
def moreItems (closer : TokenKind) (item : Reading α) : Nat → Reading (List α)
  | 0 => return []
  | steps + 1 => do
    if !(← isNext .comma) then return []
    skip
    if ← isNext closer then return []
    let a ← item
    let rest ← moreItems closer item steps
    return a :: rest

/-- One item or more, separated by commas. Every further item takes a comma, so the tokens ahead
bound their number. -/
def items (closer : TokenKind) (item : Reading α) : Reading (List α) := do
  let a ← item
  let rest ← moreItems closer item (← get).ahead.length
  return a :: rest

end Reading

end Docblock
