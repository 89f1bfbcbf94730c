import Docblock.Text.CharClass
import Docblock.Value.LooseEquality
import Docblock.ValueType

/-!
# Schemas of properties

What is declared about one property of an annotation class: its type, whether it is required, and
the enumeration its values come from. Declared types are written as a name, as `E[]`, or as
`array<E>` with an optional key type.
-/

namespace Docblock

inductive PropertyType where
  /-- A map, its elements possibly of a named type. -/
  | array (element : Option String) (declared : String)
  /-- A built-in type or a class. -/
  | named (name declared : String)
deriving Repr, DecidableEq

namespace PropertyType

def ofName (name : String) : PropertyType := named name name

/-- The type as it was written. -/
def declared : PropertyType → String
  | array _ declared => declared
  | named _ declared => declared

def isArray : PropertyType → Bool
  | array .. => true
  | named .. => false

def element? : PropertyType → Option String
  | array element _ => element
  | named .. => none

def toValueType : PropertyType → ValueType
  | array none _ => .list .mixed
  | array (some element) _ => .list (.ofName element)
  | named name _ => .ofName name

/-- The name of a type without its short forms. -/
def canonicalName (name : String) : String :=
  match name with
  | "float" => "double"
  | "bool" | "Boolean" => "boolean"
  | "int" => "integer"
  | other => other

/-- The element type a text names; `mixed` and the empty text leave elements untyped. -/
def elementName? (name : List Char) : Option String :=
  match canonicalName (String.ofList (Text.trimList Text.isBlank name)) with
  | "mixed" | "" => none
  | other => some other

/-- The text behind the last comma, or all of it. -/
def afterLastComma (cs : List Char) : List Char :=
  (cs.reverse.takeWhile fun c => c != ',').reverse

/-- The text in front of a final `[]`. -/
def beforeBrackets? (cs : List Char) : Option (List Char) :=
  match cs.reverse with
  | ']' :: '[' :: rest => some rest.reverse
  | _ => none

/-- The type a text declares; none for `mixed`. -/
def ofDeclared? (declared : String) : Option PropertyType :=
  let name := canonicalName declared
  if name = "mixed" then none
  else
    match Text.cut? ['<'] name.toList with
    | some (_, inner) =>
      let element := afterLastComma (Text.trimEndList (fun c => c == '>') inner)
      some (array (elementName? element) declared)
    | none =>
      match beforeBrackets? name.toList with
      | some element => some (array (elementName? element) declared)
      | none => some (if name = "array" then array none declared else named name declared)

end PropertyType

/-- The values a property may take and the labels by which texts list them. -/
structure Enumeration where
  values : List Value
  labels : List String

namespace Enumeration

def allows (e : Enumeration) (v : Value) : Bool :=
  e.values.any fun allowed => allowed.looselyEquals v

/-- The labels, or the values themselves if there are none. -/
def describe (e : Enumeration) : String :=
  Text.joined ", " (if e.labels.isEmpty then e.values.map Value.toString else e.labels)

end Enumeration

structure PropertySchema where
  name : String
  type? : Option PropertyType := none
  required : Bool := false
  isDefault : Bool := false
  enumeration? : Option Enumeration := none

namespace PropertySchema

/-- The expected type in error texts; a property without type takes anything. -/
def expected (p : PropertySchema) : String :=
  "a(n) " ++ match p.type? with
    | some type => type.declared
    | none => "mixed"

end PropertySchema

end Docblock
