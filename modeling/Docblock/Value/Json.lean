import Docblock.Json
import Docblock.Value.Basic

/-!
# Values as JSON text

A map whose keys count up from zero is written as a list, any other as an object in entry order.
An annotation is written as an object with its class and its properties.
-/

namespace Docblock.Value

/-- Floats in JSON have a point or an exponent; what is no finite number is written as null. -/
def jsonFloatLayout : Decimal.FloatLayout where
  tie := .even
  positional e := -5 ≤ e && e ≤ 15
  wholeSuffix := ".0"
  nanText := "null"
  infinityText := "null"
  negativeInfinityText := "null"

mutual

def jsonText : Value → List Char
  | null => "null".toList
  | bool b => Json.bool b
  | int n => Decimal.machineText n
  | float x => (Decimal.floatText jsonFloatLayout x).toList
  | string s => Json.text s
  | array ⟨es, _⟩ =>
    if OrderedMap.countsFrom 0 es then Json.list (jsonItems es) else Json.object (jsonFields es)
  | object className ⟨es, _⟩ =>
    let properties :=
      if OrderedMap.countsFrom 0 es then Json.list (jsonItems es) else Json.object (jsonFields es)
    Json.object [Json.field "class" (Json.text className), Json.field "properties" properties]

def jsonItems : List (Key × Value) → List (List Char)
  | [] => []
  | (_, v) :: rest => v.jsonText :: jsonItems rest

def jsonFields : List (Key × Value) → List (List Char)
  | [] => []
  | (key, v) :: rest => Json.field key.toString v.jsonText :: jsonFields rest

end

def json (v : Value) : String := String.ofList v.jsonText

/-- The text of several values as a JSON list. -/
def jsonOfList (vs : List Value) : String := String.ofList (Json.list (vs.map jsonText))

end Docblock.Value
