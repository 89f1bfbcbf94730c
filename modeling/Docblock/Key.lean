import Docblock.Decimal.Integer

/-!
# Keys of ordered maps

A key is an integer or a text. A text that is the canonical decimal form of a machine integer (no
plus sign, no leading zero, no minus zero) is read as that integer.
-/

namespace Docblock

inductive Key where
  | int (index : Int64)
  | text (name : String)
deriving Repr, DecidableEq, Inhabited

namespace Key

def canonicalInteger? (cs : List Char) : Option Int64 :=
  let digits := match cs with
    | '-' :: rest => rest
    | _ => cs
  if digits.isEmpty || !digits.all Char.isDigit then none
  else if 1 < digits.length && digits.head? == some '0' then none
  else if cs.head? == some '-' && digits == ['0'] then none
  else Decimal.readMachine? cs

/-- The key that a text denotes. -/
def ofString (s : String) : Key :=
  match canonicalInteger? s.toList with
  | some index => .int index
  | none => .text s

def toString : Key → String
  | .int index => String.ofList (Decimal.machineText index)
  | .text name => name

instance : ToString Key := ⟨toString⟩

def name? : Key → Option String
  | .int _ => none
  | .text name => some name

@[simp] theorem toString_int (index : Int64) :
    toString (.int index) = String.ofList (Decimal.machineText index) := rfl

@[simp] theorem toString_text (name : String) : toString (.text name) = name := rfl

end Key

end Docblock
