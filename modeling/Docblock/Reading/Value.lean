import Docblock.Reading.Argument
import Docblock.Reading.Constant
import Docblock.Reading.Object

/-!
# Values and annotations

A value is a literal, a constant, a collection or an annotation. Collections and annotations hold
values again, to a bounded depth. An annotation whose name is passed over yields nothing, and the
place it stands in stays empty.
-/

namespace Docblock

/-- The key that a value denotes; arrays and objects denote none. -/
def Value.key? : Value → Option Key
  | .int n => some (.int n)
  | .string s => some (.ofString s)
  | .bool b => some (.int (if b then 1 else 0))
  | .float x => some (.int (Decimal.truncate x))
  | .null => some (.text "")
  | .array _ => none
  | .object .. => none

/-- What one entry of a collection does to it. An entry without a value does nothing. -/
def OrderedMap.addEntry (m : OrderedMap Value) : Option Key × Option Value → OrderedMap Value
  | (_, none) => m
  | (some key, some v) => m.insert key v
  | (none, some v) => m.push v

namespace Reading

/-- Take the token ahead as a literal. -/
def literal (v : Value) : Reading (Option Value) := do
  skip
  return some v

/-- A value, given how collections and annotations inside it are read. -/
def valueWith (scope : Scope) (collection : Reading (OrderedMap Value))
    (object : Reading (Option Annotation)) : Reading (Option Value) := do
  match (← get).lookahead with
  | none => unexpected scope .value
  | some t =>
    match t.kind with
    | .openBrace => return some (.array (← collection))
    | .atSign => return (← object).map fun a => .object a.className a.properties
    | .identifier | .qualifiedName => return some (← constant scope)
    | .string => literal (.string t.text)
    | .integer => literal (.int (Decimal.readSaturating t.text.toList))
    | .float =>
      match Decimal.readFloat? t.text.toList with
      | some x => literal (.float x)
      | none => unexpected scope .value
    | .trueWord => literal (.bool true)
    | .falseWord => literal (.bool false)
    | .nullWord => literal .null
    | _ => unexpected scope .value

def keySeparators : List TokenKind := [.equals, .colon]

/-- The key of an entry: a constant, or the text of an integer or a string. -/
def entryKey (scope : Scope) : Reading Key := do
  if (← get).lookahead.any fun t => t.kind.isName then
    let v ← constant scope
    match v.key? with
    | some key => return key
    | none => throw (.illegalKey v.typeName scope.context)
  else
    return .ofString (← expectAny scope [.integer, .string]).text

def entry (scope : Scope) (value : Reading (Option Value)) :
    Reading (Option Key × Option Value) := do
  if (← get).glimpse.any fun t => keySeparators.contains t.kind then
    let key ← entryKey scope
    let _ ← expectAny scope keySeparators
    return (some key, ← value)
  else
    return (none, ← value)

def collection (scope : Scope) (value : Reading (Option Value)) : Reading (OrderedMap Value) := do
  let _ ← expect scope .openBrace
  if ← isNext .closeBrace then
    skip
    return .empty
  let entries ← items .closeBrace (entry scope value)
  let _ ← expect scope .closeBrace
  return entries.foldl OrderedMap.addEntry .empty

def argument (scope : Scope) (value : Reading (Option Value)) : Reading (Option Argument) := do
  if (← get).glimpse.any fun t => t.kind == .equals then
    let name ← expect scope .identifier
    let _ ← expect scope .equals
    return (← value).map (.named name.text)
  else
    return (← value).map .positional

/-- The arguments in parentheses; without an opening parenthesis there are none. -/
def arguments (scope : Scope) (value : Reading (Option Value)) : Reading (OrderedMap Value) := do
  if !(← isNext .openParen) then return .empty
  skip
  let given ← if ← isNext .closeParen then pure [] else items .closeParen (argument scope value)
  let _ ← expect scope .closeParen
  return Argument.fold (given.filterMap id)

/-- The class of an annotation, or nothing if its name is passed over. -/
def annotationClass? (scope : Scope) (written : String) : Reading (Option String) := do
  if ClassName.isQualified written then return some (ClassName.bare written)
  match ← resolveAnnotation? scope.registry scope.settings written with
  | some resolved => return some (ClassName.bare resolved)
  | none =>
    if scope.settings.isIgnored written then return none
    else throw (.notImported written scope.context)

/-- The schema of an annotation class, or nothing if the class is none and that is passed over. -/
def annotationSchema? (scope : Scope) (written className : String) :
    Reading (Option AnnotationSchema) := do
  if !(← classExists scope.registry className) then
    throw (.classNotFound className scope.context)
  match ← scope.schemaOf className with
  | some schema => return some schema
  | none =>
    if scope.settings.ignoreNotImported || scope.settings.ignoredNames.contains written then
      return none
    else throw (.notMarked className written scope.context)

/-- An annotation on a target; the empty target allows every annotation. -/
def object (scope : Scope) (target : Target) (value : Reading (Option Value)) :
    Reading (Option Annotation) := do
  let _ ← expect scope .atSign
  let written ← identifier scope
  match ← annotationClass? scope written with
  | none => return none
  | some className =>
    match ← annotationSchema? scope written className with
    | none => return none
    | some schema =>
      if !target.isEmpty && !schema.target.intersects target then
        throw (.targetNotAllowed written scope.context schema.target)
      let values ← arguments scope value
      return some (← schema.objectOf scope.registry ⟨written, scope.context⟩ values)

/-- A value with room for so many levels of collections and annotations. -/
def value (scope : Scope) : Nat → Reading (Option Value)
  | 0 => valueWith scope (unexpected scope (.nesting maxNesting))
      (unexpected scope (.nesting maxNesting))
  | room + 1 => valueWith scope (collection scope (value scope room))
      (object scope .nested (value scope room))

end Reading

end Docblock
