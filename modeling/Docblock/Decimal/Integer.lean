/-!
# Integers in decimal

Whole numbers are written without leading zeros and with a minus sign only. A written integer may
carry either sign and leading zeros. Machine integers have 64 bits; a literal outside their range
stands for the nearest end of it.
-/

namespace Docblock.Decimal

def integerText (n : Int) : List Char :=
  match n with
  | .ofNat m => Nat.toDigits 10 m
  | .negSucc m => '-' :: Nat.toDigits 10 (m + 1)

@[simp] theorem integerText_ofNat (m : Nat) : integerText (Int.ofNat m) = Nat.toDigits 10 m := rfl

@[simp] theorem integerText_negSucc (m : Nat) :
    integerText (Int.negSucc m) = '-' :: Nat.toDigits 10 (m + 1) := rfl

def readDigits? (cs : List Char) : Option Nat :=
  if cs ≠ [] ∧ cs.all Char.isDigit then some (Nat.ofDigitChars 10 cs 0) else none

/-- The integer a text writes: an optional sign and at least one digit. -/
def readInteger? : List Char → Option Int
  | '-' :: cs => (readDigits? cs).map fun n => -(n : Int)
  | '+' :: cs => (readDigits? cs).map Int.ofNat
  | cs => (readDigits? cs).map Int.ofNat

theorem readDigits?_toDigits (n : Nat) : readDigits? (Nat.toDigits 10 n) = some n := by
  have digits : (Nat.toDigits 10 n).all Char.isDigit = true :=
    List.all_eq_true.2 fun c hc => Nat.isDigit_of_mem_toDigits (by decide) (by decide) hc
  simp [readDigits?, digits, Nat.toDigits_ne_nil, Nat.ofDigitChars_ten_toDigits]

/-- Whether an integer fits into 64 bits. -/
def fits (n : Int) : Bool := Int64.minValue.toInt ≤ n && n ≤ Int64.maxValue.toInt

/-- The machine integer nearest to `n`. -/
def clamp (n : Int) : Int64 :=
  if n < Int64.minValue.toInt then Int64.minValue
  else if Int64.maxValue.toInt < n then Int64.maxValue
  else Int64.ofInt n

def readMachine? (cs : List Char) : Option Int64 :=
  (readInteger? cs).bind fun n => if fits n then some (Int64.ofInt n) else none

/-- The value of an integer literal; one that does not fit saturates in the direction of its
sign. -/
def readSaturating (cs : List Char) : Int64 :=
  match readMachine? cs with
  | some n => n
  | none => if cs.head? = some '-' then Int64.minValue else Int64.maxValue

def machineText (n : Int64) : List Char := integerText n.toInt

end Docblock.Decimal
