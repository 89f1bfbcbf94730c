import Docblock.Decimal.Shortest
import Docblock.OrderedMap

/-!
# Values

The values that annotation arguments denote: scalars, ordered maps and annotation objects. Values
are equal when they have the same shape and equal parts in the same order; numbers of floating
point compare as numbers, and the next implicit index of a map does not count.
-/

namespace Docblock

inductive Value where
  | null
  | bool (b : Bool)
  | int (n : Int64)
  | float (x : Float)
  | string (s : String)
  | array (items : OrderedMap Value)
  | object (className : String) (properties : OrderedMap Value)
deriving Inhabited

/-- An annotation object: its class and the values of its properties. -/
structure Annotation where
  className : String
  properties : OrderedMap Value
deriving Inhabited

namespace Value

mutual

def beq : Value → Value → Bool
  | null, null => true
  | bool b, bool c => b == c
  | int n, int m => n == m
  | float x, float y => x == y
  | string s, string t => s == t
  | array ⟨es, _⟩, array ⟨fs, _⟩ => beqEntries es fs
  | object c ⟨es, _⟩, object d ⟨fs, _⟩ => c == d && beqEntries es fs
  | _, _ => false

def beqEntries : List (Key × Value) → List (Key × Value) → Bool
  | [], [] => true
  | (key, v) :: rest, (other, w) :: others => key == other && v.beq w && beqEntries rest others
  | _, _ => false

end

instance : BEq Value := ⟨beq⟩

instance : BEq (OrderedMap Value) := ⟨fun m n => beqEntries m.entries n.entries⟩

instance : Coe Annotation Value := ⟨fun a => .object a.className a.properties⟩

def typeName : Value → String
  | null => "NULL"
  | bool _ => "boolean"
  | int _ => "integer"
  | float _ => "double"
  | string _ => "string"
  | array _ => "array"
  | object .. => "object"

/-- The type of a value in error texts: objects are named by their class. -/
def describeType : Value → String
  | object className _ => "an instance of " ++ className
  | v => v.typeName

def isNull : Value → Bool
  | null => true
  | _ => false

def isArray : Value → Bool
  | array _ => true
  | _ => false

def isScalar : Value → Bool
  | bool _ | int _ | float _ | string _ => true
  | _ => false

def string? : Value → Option String
  | string s => some s
  | _ => none

def bool? : Value → Option Bool
  | bool b => some b
  | _ => none

def int? : Value → Option Int64
  | int n => some n
  | _ => none

def array? : Value → Option (OrderedMap Value)
  | array items => some items
  | _ => none

def object? : Value → Option Annotation
  | object className properties => some ⟨className, properties⟩
  | _ => none

def isTruthy : Value → Bool
  | null => false
  | bool b => b
  | int n => n != 0
  | float x => x != 0
  | string s => !(s == "" || s == "0")
  | array items => !items.isEmpty
  | object .. => true

/-- Floats inside texts never have an exponent, and whole ones no point. -/
def floatLayout : Decimal.FloatLayout where
  tie := .up
  positional _ := true
  wholeSuffix := ""
  nanText := "NaN"
  infinityText := "inf"
  negativeInfinityText := "-inf"

/-- A value as it appears inside a text. -/
def toString : Value → String
  | null => "null"
  | bool b => if b then "true" else "false"
  | int n => String.ofList (Decimal.machineText n)
  | float x => Decimal.floatText floatLayout x
  | string s => s
  | array _ => "Array"
  | object className _ => className

instance : ToString Value := ⟨toString⟩

end Value

namespace Key

/-- The key as a value. -/
def toValue : Key → Value
  | .int index => .int index
  | .text name => .string name

end Key

namespace OrderedMap

/-- Look up by name; an entry that holds null counts as absent. -/
def set? (m : OrderedMap Value) (name : String) : Option Value :=
  (m.named? name).filter fun v => !v.isNull

end OrderedMap

namespace Annotation

def get? (a : Annotation) (property : String) : Option Value := a.properties.named? property

def set (a : Annotation) (property : String) (v : Value) : Annotation :=
  { a with properties := a.properties.insert (.ofString property) v }

end Annotation

end Docblock
