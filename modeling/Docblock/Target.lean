import Docblock.Text.Trim

/-!
# Targets

The kinds of code element an annotation may be declared on. A target is a set of kinds; its bit
mask gives classes 1, methods 2, properties 4, annotations 8 and functions 16. The empty set
switches target checks off.
-/

namespace Docblock

structure Target where
  classes : Bool
  methods : Bool
  properties : Bool
  annotations : Bool
  functions : Bool
deriving Repr, DecidableEq, Inhabited

namespace Target

def none : Target := ⟨false, false, false, false, false⟩

def onClass : Target := { none with classes := true }

def onMethod : Target := { none with methods := true }

def onProperty : Target := { none with properties := true }

def nested : Target := { none with annotations := true }

def onFunction : Target := { none with functions := true }

def all : Target := ⟨true, true, true, true, true⟩

def bits (t : Target) : Nat :=
  t.classes.toNat + 2 * t.methods.toNat + 4 * t.properties.toNat + 8 * t.annotations.toNat
    + 16 * t.functions.toNat

/-- The target of a bit mask; a mask with an unknown bit has none. -/
def ofBits? (n : Nat) : Option Target :=
  if n < 32 then
    some ⟨n.testBit 0, n.testBit 1, n.testBit 2, n.testBit 3, n.testBit 4⟩
  else Option.none

def union (s t : Target) : Target :=
  ⟨s.classes || t.classes, s.methods || t.methods, s.properties || t.properties,
    s.annotations || t.annotations, s.functions || t.functions⟩

def contains (s t : Target) : Bool := s.union t == s

def intersects (s t : Target) : Bool :=
  (s.classes && t.classes) || (s.methods && t.methods) || (s.properties && t.properties)
    || (s.annotations && t.annotations) || (s.functions && t.functions)

def isEmpty (t : Target) : Bool := t == none

/-- The accepted names in the order in which texts list them. -/
def names : List (String × Target) :=
  [("CLASS", onClass), ("METHOD", onMethod), ("PROPERTY", onProperty), ("FUNCTION", onFunction),
   ("ANNOTATION", nested), ("ALL", all)]

def ofName? (name : String) : Option Target := names.lookup name

def availableNames : String := Text.joined ", " (names.map Prod.fst)

/-- `ALL`, or the names of the kinds in the set. -/
def describe (t : Target) : String :=
  if t.contains all then "ALL"
  else
    let kinds := names.filter fun entry => entry.2 != all && t.contains entry.2
    Text.joined ", " (kinds.map Prod.fst)

def isJsonBlank (c : Char) : Bool := c == ' ' || c == '\t' || c == '\n' || c == '\r'

/-- The target that a JSON text gives as a number without sign, fraction, exponent or leading
zero. -/
def ofJson? (s : String) : Option Target :=
  let ds := Text.trimList isJsonBlank s.toList
  if ds.isEmpty || !ds.all Char.isDigit || (1 < ds.length && ds.head? == some '0') then Option.none
  else ofBits? (Nat.ofDigitChars 10 ds 0)

theorem ofBits?_bits (t : Target) : ofBits? t.bits = some t := by
  obtain ⟨_ | _, _ | _, _ | _, _ | _, _ | _⟩ := t <;> rfl

theorem bits_union_self (t : Target) : (t.union t).bits = t.bits := by
  simp [union]

theorem intersects_comm (s t : Target) : s.intersects t = t.intersects s := by
  simp [intersects, Bool.and_comm]

theorem intersects_none (t : Target) : t.intersects none = false := by
  simp [intersects, none]

theorem contains_none (t : Target) : t.contains none = true := by
  simp [contains, union, none]

end Target

end Docblock
