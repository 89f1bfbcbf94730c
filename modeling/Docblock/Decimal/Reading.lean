import Docblock.Decimal.Integer
import Docblock.Decimal.Binary

/-!
# Reading decimal numbers

A decimal number has an optional sign, digits with an optional point (one digit on either side of
it suffices) and an optional exponent. It denotes the double nearest to it; beyond the largest
double that is infinity, below the smallest it is zero.
-/

namespace Docblock.Decimal

def isSign (c : Char) : Bool := c == '+' || c == '-'

def isExponentMark (c : Char) : Bool := c == 'e' || c == 'E'

/-- The digits of a number, the exponent of the last of them, and what follows. -/
def readMantissa? (cs : List Char) : Option (List Char × Int × List Char) :=
  let whole := cs.takeWhile Char.isDigit
  match cs.dropWhile Char.isDigit with
  | '.' :: rest =>
    let fraction := rest.takeWhile Char.isDigit
    if whole.isEmpty && fraction.isEmpty then none
    else some (whole ++ fraction, -(fraction.length : Int), rest.dropWhile Char.isDigit)
  | rest => if whole.isEmpty then none else some (whole, 0, rest)

/-- The exponent a text writes behind its mark; no text at all means zero. -/
def readExponent? : List Char → Option Int
  | [] => some 0
  | c :: cs => if isExponentMark c then readInteger? cs else none

/-- The double nearest to `m * 10 ^ e`. Outside the exponents of doubles the result is known
without the power. -/
def nearest (m : Nat) (e : Int) : Float :=
  let lead := (Nat.toDigits 10 m).length + e
  if m = 0 ∨ lead < -330 then 0
  else if 330 < lead then Float.ofBits 0x7FF0000000000000
  else match e with
    | .ofNat k => Float.ofScientific m false k
    | .negSucc k => Float.ofScientific m true (k + 1)

def readUnsigned? (cs : List Char) : Option Float :=
  (readMantissa? cs).bind fun (ds, e, rest) =>
    (readExponent? rest).map fun f => nearest (Nat.ofDigitChars 10 ds 0) (e + f)

def readFloat? : List Char → Option Float
  | '-' :: cs => (readUnsigned? cs).map Float.neg
  | '+' :: cs => readUnsigned? cs
  | cs => readUnsigned? cs

/-- The double nearest to a machine integer. -/
def ofMachine (n : Int64) : Float := Float.ofInt n.toInt

/-- The whole part of a double, clamped to 64 bits; not a number counts as zero. -/
def truncate (x : Float) : Int64 :=
  match parts x with
  | .nan => 0
  | .infinite negative => if negative then Int64.minValue else Int64.maxValue
  | .finite negative m q =>
    clamp (if negative then -(wholePart m q : Int) else wholePart m q)

end Docblock.Decimal
