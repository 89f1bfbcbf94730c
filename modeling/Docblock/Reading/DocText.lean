import Docblock.Reading.Value

/-!
# Doc comments

A doc comment is prose with annotations in it. An annotation starts at an `@` that is not adjacent
to the token before it and directly followed by a name. Everything else is passed over.
-/

namespace Docblock

namespace DocText

/-- The text from the first `@` that stands at the start or behind a blank, a star or a tab. -/
def fromFirstAt? (allowed : Bool) : List Char → Option (List Char)
  | [] => none
  | c :: cs =>
    if c = '@' && allowed then some (c :: cs)
    else fromFirstAt? (c == ' ' || c == '*' || c == '\t') cs

/-- Characters that frame a doc comment. -/
def isFrame (c : Char) : Bool := c == '*' || c == ' ' || c == '/'

/-- The part of a doc comment that may hold annotations. -/
def body? (input : String) : Option String :=
  (fromFirstAt? true input.toList).map fun cs => String.ofList (Text.trimList isFrame cs)

end DocText

namespace Reading

def startsAnnotation (w : Window) : Bool :=
  match w.ahead with
  | t :: name :: _ =>
    t.kind == .atSign && !(w.behind.any fun before => before.isAdjacent t)
      && t.isAdjacent name && (name.kind == .separator || name.kind.isClassPart)
  | _ => false

/-- A sign with a name directly behind it starts an annotation where nothing is before it. -/
theorem startsAnnotation_of_signed {sign name : Token} (hsign : sign.kind = .atSign)
    (hadjacent : sign.isAdjacent name = true) (hname : name.kind.isClassPart = true)
    (rest : List Token) : startsAnnotation ⟨none, sign :: name :: rest⟩ = true := by
  simp [hsign, startsAnnotation, hadjacent, hname]

/-- The annotations ahead in order. Every step passes a token. -/
def annotations (scope : Scope) (target : Target) : Nat → Reading (List Annotation)
  | 0 => return []
  | steps + 1 => do
    let w ← get
    if w.ahead.isEmpty then return []
    if startsAnnotation w then
      let found ← object scope target (value scope maxNesting)
      return found.toList ++ (← annotations scope target steps)
    else
      skip
      annotations scope target steps

end Reading

/-- Read the annotations of a doc comment on a target. -/
def readDoc (scope : Scope) (target : Target) (input : String) : Lookup (List Annotation) :=
  match DocText.body? input with
  | none => return []
  | some body =>
    let tokens := Token.scan body
    Prod.fst <$> (Reading.annotations scope target tokens.length).run (.ofTokens tokens)

end Docblock
