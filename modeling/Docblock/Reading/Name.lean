import Docblock.Reading.Basic

/-!
# Names

Names are read from adjacent tokens. The name of an annotation is resolved in the namespaces of the
settings, or through imports, the current namespace and the name itself.
-/

namespace Docblock

namespace Reading

def classParts : List TokenKind :=
  [.identifier, .qualifiedName, .trueWord, .falseWord, .nullWord]

/-- Whether a separator stands ahead, adjacent to the token just passed. -/
def separatorFollows (w : Window) : Bool :=
  match w.behind, w.lookahead with
  | some before, some next => next.kind == .separator && before.isAdjacent next
  | _, _ => false

/-- The parts of a name behind its first token. -/
def nameParts (scope : Scope) : Nat → Reading String
  | 0 => return ""
  | steps + 1 => do
    if !separatorFollows (← get) then return ""
    let _ ← expect scope .separator
    let part ← expectAny scope classParts
    let rest ← nameParts scope steps
    return "\\" ++ part.text ++ rest

/-- A name: tokens joined by separators that are adjacent to the token before. -/
def identifier (scope : Scope) : Reading String := do
  if !(← get).isNextAny classParts then unexpected scope .name
  let first ← expectAny scope classParts
  let rest ← nameParts scope (← get).ahead.length
  return first.text ++ rest

end Reading

/-- The candidates for a name in the namespaces of the settings. -/
def Settings.candidates (s : Settings) (name : String) : List String :=
  s.namespaces.map fun nameSpace => ClassName.inside (ClassName.stem nameSpace) name

/-- A name with its first segment replaced by the import under it. -/
def Settings.imported? (s : Settings) (name : String) : Option String :=
  (s.import? (ClassName.firstSegment name)).map fun imported =>
    imported ++ ClassName.afterFirstSegment name

/-- The candidate for a name in the current namespace. -/
def Settings.localCandidate? (s : Settings) (name : String) : Option String :=
  s.currentNamespace?.map fun nameSpace => ClassName.inside nameSpace name

/-- The class that an annotation name without a leading separator stands for. Namespaces exclude
everything else; an ignored name is found through imports only. -/
def resolveAnnotation? (registry : Registry) (s : Settings) (name : String) :
    Recall (Option String) :=
  if !s.namespaces.isEmpty then firstExisting? registry (s.candidates name)
  else
    match s.imported? name with
    | some imported => return some imported
    | none =>
      if s.ignoredNames.contains name then return none
      else firstExisting? registry ((s.localCandidate? name).toList ++ [name])

/-- The class that the class part of a constant reference stands for. -/
def resolveConstantClass? (registry : Registry) (s : Settings) (className : String) :
    Recall (Option String) := do
  match ← firstExisting? registry (s.candidates className) with
  | some found => return some found
  | none =>
    match s.imported? className with
    | some imported => return some imported
    | none => firstExisting? registry (s.localCandidate? className).toList

end Docblock
