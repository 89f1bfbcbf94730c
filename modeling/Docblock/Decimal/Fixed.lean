import Docblock.Decimal.Shortest

/-!
# A fixed number of decimal places

The exact binary value is rounded to a whole number of units in the last place; a half goes to the
even neighbour.
-/

namespace Docblock.Decimal

/-- The whole number nearest to `num / den`, the even one at equal distance. -/
def roundHalfEven (num den : Nat) : Nat :=
  let below := num / den
  let twice := 2 * (num % den)
  if twice < den then below
  else if den < twice then below + 1
  else if below % 2 = 0 then below else below + 1

theorem roundHalfEven_mul (k den : Nat) (h : 0 < den) : roundHalfEven (k * den) den = k := by
  simp [roundHalfEven, Nat.mul_div_cancel _ h, h]

def padZeros (width : Nat) (ds : List Char) : List Char :=
  List.replicate (width - ds.length) '0' ++ ds

def fixedText (places : Nat) (x : Float) : String :=
  match parts x with
  | .nan => "NaN"
  | .infinite negative => if negative then "-inf" else "inf"
  | .finite negative m q =>
    let (num, den) := powerOfTwo q
    let unit := Nat.pow 10 places
    let units := roundHalfEven (m * num * unit) den
    let ds := Nat.toDigits 10 (units / unit)
      ++ '.' :: padZeros places (Nat.toDigits 10 (units % unit))
    String.ofList (signed negative ds)

end Docblock.Decimal
