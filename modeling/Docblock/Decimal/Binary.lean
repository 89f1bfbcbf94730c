/-!
# Binary floating point numbers as exact numbers

A finite double is a sign, a mantissa and a power of two. Its neighbours bound the interval of
reals that round to it.
-/

namespace Docblock.Decimal

/-- What the 64 bits of a double stand for; `finite s m q` is `m * 2 ^ q`, negated when `s`. -/
inductive Parts where
  | nan
  | infinite (negative : Bool)
  | finite (negative : Bool) (mantissa : Nat) (power : Int)
deriving Repr, DecidableEq

/-- The mantissas of normal numbers start here; it is `2 ^ 52`. -/
def leadingUnit : Nat := 0x10000000000000

/-- The sign is the highest bit, the exponent field the eleven below it. -/
def partsOfBits (bits : Nat) : Parts :=
  let negative := bits / 0x8000000000000000 % 2 == 1
  let field : Nat := bits / leadingUnit % 0x800
  let fraction := bits % leadingUnit
  if field = 2047 then if fraction = 0 then .infinite negative else .nan
  else if field = 0 then .finite negative fraction (-1074)
  else .finite negative (leadingUnit + fraction) ((field : Int) - 1075)

def parts (x : Float) : Parts := partsOfBits x.toBits.toNat

/-- The whole part of `m * 2 ^ q`. -/
def wholePart (m : Nat) (q : Int) : Nat :=
  match q with
  | .ofNat k => m * Nat.pow 2 k
  | .negSucc k => m / Nat.pow 2 (k + 1)

/-- `2 ^ q` as a fraction: numerator and denominator. -/
def powerOfTwo (q : Int) : Nat × Nat :=
  match q with
  | .ofNat k => (Nat.pow 2 k, 1)
  | .negSucc k => (1, Nat.pow 2 (k + 1))

/-- `10 ^ e` as a fraction: numerator and denominator. -/
def powerOfTen (e : Int) : Nat × Nat :=
  match e with
  | .ofNat k => (Nat.pow 10 k, 1)
  | .negSucc k => (1, Nat.pow 10 (k + 1))

end Docblock.Decimal
