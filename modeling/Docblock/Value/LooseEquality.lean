import Docblock.Decimal.Reading
import Docblock.Text.CharClass
import Docblock.Text.Trim
import Docblock.Value.Basic

/-!
# Loose equality

Loose equality decides whether a value is one of an enumeration. Numbers compare as numbers with
each other and with numeric texts, booleans compare by truth, null equals every empty value, and
maps compare entry by entry under their keys.
-/

namespace Docblock.Value

def isNumeralChar (c : Char) : Bool :=
  c.isDigit || c == '.' || c == 'e' || c == 'E' || c == '+' || c == '-'

/-- The number that a text writes, blanks around it ignored. -/
def numeric? (s : String) : Option Float :=
  let cs := Text.trimList Text.isBlank s.toList
  if cs.isEmpty || !cs.all isNumeralChar then none else Decimal.readFloat? cs

/-- A number against a text: by number if the text is numeric, by spelling otherwise. -/
def numberEqualsText (x : Float) (spelling s : String) : Bool :=
  match numeric? s with
  | some y => y == x
  | none => spelling == s

def textEqualsText (s t : String) : Bool :=
  match numeric? s, numeric? t with
  | some x, some y => x == y
  | _, _ => s == t

mutual

def looselyEquals : Value → Value → Bool
  | null, null => true
  | bool b, v => b == v.isTruthy
  | v, bool b => b == v.isTruthy
  | null, string s => s == ""
  | string s, null => s == ""
  | null, object .. => false
  | object .., null => false
  | null, v => !v.isTruthy
  | v, null => !v.isTruthy
  | int n, int m => n == m
  | int n, float y => Decimal.ofMachine n == y
  | float x, int m => Decimal.ofMachine m == x
  | float x, float y => x == y
  | int n, string t => numberEqualsText (Decimal.ofMachine n) (toString (int n)) t
  | string s, int m => numberEqualsText (Decimal.ofMachine m) (toString (int m)) s
  | float x, string t => numberEqualsText x (toString (float x)) t
  | string s, float y => numberEqualsText y (toString (float y)) s
  | string s, string t => textEqualsText s t
  | array ⟨es, _⟩, array ⟨fs, _⟩ => es.length == fs.length && looselyContained es fs
  | object c ⟨es, _⟩, object d ⟨fs, _⟩ => c == d && beqEntries es fs
  | _, _ => false

/-- Whether every entry has a loosely equal value under its key in `others`. -/
def looselyContained : List (Key × Value) → List (Key × Value) → Bool
  | [], _ => true
  | (key, v) :: rest, others =>
    (match OrderedMap.lookup key others with
      | some w => v.looselyEquals w
      | none => false) && looselyContained rest others

end

end Docblock.Value
