import Docblock.Decimal.Binary

/-!
# The shortest decimal that reads back

Of all decimals in the interval that rounds to a double, those on the coarsest grid `10 ^ e` that
meets the interval have the fewest digits. Of them the one nearest to the double is chosen. The
search compares exact fractions and rounds nothing.
-/

namespace Docblock.Decimal

/-- Which neighbour is taken at equal distance. -/
inductive Tie where
  | up
  | even
deriving Repr, DecidableEq

/-- The interval of reals that round to `m * 2 ^ q`, in quarters of `2 ^ q`: lower end, upper end,
and whether the ends belong to it. -/
def roundingInterval (m : Nat) (q : Int) : Nat × Nat × Bool :=
  let lower := if m = leadingUnit ∧ q ≠ -1074 then 4 * m - 1 else 4 * m - 2
  (lower, 4 * m + 2, m % 2 == 0)

/-- The point `k * 10 ^ e` of the grid nearest to `m * 2 ^ q` inside its rounding interval. -/
def gridPoint? (tie : Tie) (m : Nat) (q e : Int) : Option Nat :=
  let (twoNum, twoDen) := powerOfTwo (q - 2)
  let (tenNum, tenDen) := powerOfTen e
  let scaled (quarters : Nat) := quarters * twoNum * tenDen
  let step := tenNum * twoDen
  let (lower, upper, closed) := roundingInterval m q
  let below := scaled (4 * m) / step
  let remainder := scaled (4 * m) % step
  let inside (k : Nat) :=
    if closed then scaled lower ≤ k * step && k * step ≤ scaled upper
    else scaled lower < k * step && k * step < scaled upper
  match inside below, inside (below + 1) with
  | true, true =>
    if 2 * remainder < step then some below
    else if step < 2 * remainder then some (below + 1)
    else match tie with
      | .up => some (below + 1)
      | .even => some (if below % 2 = 0 then below else below + 1)
  | true, false => some below
  | false, true => some (below + 1)
  | false, false => none

/-- An exponent whose grid is coarser than every grid that can meet the interval. -/
def coarsest (m : Nat) (q : Int) : Int := (Nat.log2 m + 1 + q) * 30103 / 100000 + 1

/-- The digits `k` and exponent `e` of the shortest decimal `k * 10 ^ e` that rounds to
`m * 2 ^ q`. Twenty-four grids reach past seventeen digits, which always suffice. -/
def shortest (tie : Tie) (m : Nat) (q : Int) : Nat × Int :=
  let found := (List.range 24).findSome? fun i =>
    let e : Int := coarsest m q - (i : Nat)
    (gridPoint? tie m q e).map fun k => (k, e)
  found.getD (0, 0)

/-- How the digits of a double are laid out. -/
structure FloatLayout where
  tie : Tie
  /-- Whether a number whose leading digit stands for `10 ^ e` is written without exponent. -/
  positional : Int → Bool
  /-- What follows a whole number written without exponent. -/
  wholeSuffix : String
  nanText : String
  infinityText : String
  negativeInfinityText : String

def signed (negative : Bool) (cs : List Char) : List Char := if negative then '-' :: cs else cs

/-- The digits `ds`, the last of which stands for `10 ^ e`, around a decimal point. -/
def positionalText (wholeSuffix : String) (ds : List Char) (e : Int) : List Char :=
  match e with
  | .ofNat k => ds ++ List.replicate k '0' ++ wholeSuffix.toList
  | .negSucc k =>
    if k + 1 < ds.length then
      ds.take (ds.length - (k + 1)) ++ '.' :: ds.drop (ds.length - (k + 1))
    else '0' :: '.' :: List.replicate (k + 1 - ds.length) '0' ++ ds

/-- One digit before the point and an exponent that always carries its sign. -/
def exponentText (ds : List Char) (lead : Int) : List Char :=
  let fraction := ds.drop 1
  let digits := ds.take 1 ++ if fraction.isEmpty then [] else '.' :: fraction
  let exponent := match lead with
    | .ofNat k => '+' :: Nat.toDigits 10 k
    | .negSucc k => '-' :: Nat.toDigits 10 (k + 1)
  digits ++ 'e' :: exponent

def finiteText (layout : FloatLayout) (m : Nat) (q : Int) : List Char :=
  if m = 0 then '0' :: layout.wholeSuffix.toList
  else
    let (k, e) := shortest layout.tie m q
    let ds := Nat.toDigits 10 k
    let lead := e + (ds.length : Int) - 1
    if layout.positional lead then positionalText layout.wholeSuffix ds e
    else exponentText ds lead

def floatText (layout : FloatLayout) (x : Float) : String :=
  match parts x with
  | .nan => layout.nanText
  | .infinite negative => if negative then layout.negativeInfinityText else layout.infinityText
  | .finite negative m q => String.ofList (signed negative (finiteText layout m q))

end Docblock.Decimal
