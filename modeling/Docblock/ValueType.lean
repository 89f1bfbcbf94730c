import Docblock.ClassName
import Docblock.Decimal.Fixed
import Docblock.Value.Basic

/-!
# Types of values

Types describe values and decide which values belong to them. Objects belong to a class by the
class hierarchy, which is given from outside.
-/

namespace Docblock

mutual

inductive ValueType where
  | mixed
  | null
  | boolean
  | integer
  | float
  | string
  | object (className : Option String)
  | list (element : ValueType)
  | map (key element : ValueType)
  | union (members : List ValueType)
  | intersection (members : List ValueType)
  | constant (only : ConstantType)

/-- A type that one value inhabits. -/
inductive ConstantType where
  | boolean (b : Bool)
  | integer (n : Int64)
  | float (x : Float)
  | string (s : String)
  | list (element : ValueType) (items : OrderedMap Value)
  | map (key element : ValueType) (items : OrderedMap Value)

end

/-- Whether a class is an ancestor or extends or implements it. -/
abbrev Hierarchy := (className ancestor : String) → Bool

/-- The hierarchy in which every class stands alone. -/
def Hierarchy.exact : Hierarchy := fun className ancestor => className == ancestor

namespace ValueType

def isComposite : ValueType → Bool
  | union _ | intersection _ => true
  | _ => false

mutual

def describe : ValueType → String
  | mixed => "mixed"
  | null => "null"
  | boolean => "boolean"
  | integer => "integer"
  | float => "float"
  | string => "string"
  | object none => "object"
  | object (some className) => className
  | list element => "array<" ++ element.describe ++ ">"
  | map key element => "array<" ++ key.describe ++ ", " ++ element.describe ++ ">"
  | union members => Text.joined "|" (describeMembers members)
  | intersection members => Text.joined "&" (describeMembers members)
  | constant only => describeConstant only

def describeMembers : List ValueType → List String
  | [] => []
  | member :: rest =>
    (if member.isComposite then "(" ++ member.describe ++ ")" else member.describe)
      :: describeMembers rest

def describeConstant : ConstantType → String
  | .boolean b => if b then "true" else "false"
  | .integer _ => "integer"
  | .float x => Decimal.fixedText 6 x
  | .string _ => "string"
  | .list element _ => "array<" ++ element.describe ++ ">"
  | .map key element _ => "array<" ++ key.describe ++ ", " ++ element.describe ++ ">"

end

mutual

def acceptsNull : ValueType → Bool
  | mixed | null => true
  | union members => someAcceptsNull members
  | intersection members => allAcceptNull members
  | _ => false

def someAcceptsNull : List ValueType → Bool
  | [] => false
  | member :: rest => member.acceptsNull || someAcceptsNull rest

def allAcceptNull : List ValueType → Bool
  | [] => true
  | member :: rest => member.acceptsNull && allAcceptNull rest

end

end ValueType

namespace ConstantType

/-- Whether a value is the constant itself. -/
def accepts : ConstantType → Value → Bool
  | boolean b, .bool c => b == c
  | integer n, .int m => n == m
  | float x, .float y => x == y
  | string s, .string t => s == t
  | list _ items, .array others => items == others
  | map _ _ items, .array others => items == others
  | _, _ => false

end ConstantType

namespace ValueType

mutual

def accepts (classes : Hierarchy) : ValueType → Value → Bool
  | mixed, _ => true
  | null, v => v.isNull
  | boolean, v => v.bool?.isSome
  | integer, v => v.int?.isSome
  | float, .float _ => true
  | string, v => v.string?.isSome
  | object none, .object .. => true
  | object (some ancestor), .object className _ => classes className ancestor
  | list element, .array items => items.values.all fun v => element.accepts classes v
  | map key element, .array items =>
    items.entries.all fun entry =>
      key.accepts classes entry.1.toValue && element.accepts classes entry.2
  | union members, v => someAccepts classes members v
  | intersection members, v => allAccept classes members v
  | constant only, v => only.accepts v
  | _, _ => false

def someAccepts (classes : Hierarchy) : List ValueType → Value → Bool
  | [], _ => false
  | member :: rest, v => member.accepts classes v || someAccepts classes rest v

def allAccept (classes : Hierarchy) : List ValueType → Value → Bool
  | [], _ => true
  | member :: rest, v => member.accepts classes v && allAccept classes rest v

end

/-- The type that a name denotes; a name that is no built-in type is a class. -/
def ofName (name : String) : ValueType :=
  match name with
  | "mixed" => mixed
  | "boolean" => boolean
  | "integer" => integer
  | "double" => float
  | "string" => string
  | "array" => list mixed
  | "object" => object none
  | "NULL" | "null" => null
  | className => object (some (ClassName.bare className))

end ValueType

end Docblock
