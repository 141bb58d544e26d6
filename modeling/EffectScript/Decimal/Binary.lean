/-!
# Binary floating-point numbers

A number of the 64-bit binary format is a sign, a mantissa below `2 ^ 53` and a
power of two. The nearest such number to a fraction is found in exact natural
arithmetic; a fraction halfway between two neighbours goes to the one with the
even mantissa.
-/

namespace EffectScript.Decimal

/-- A fraction `numerator / denominator` rounded to the nearest natural number,
a half to the even neighbour. -/
def roundHalfEven (numerator denominator : Nat) : Nat :=
  let quotient := numerator / denominator
  let twiceRest := 2 * (numerator % denominator)
  if twiceRest < denominator then quotient
  else if denominator < twiceRest then quotient + 1
  else if quotient % 2 = 0 then quotient
  else quotient + 1

/-- A number of the 64-bit binary format. The finite number with mantissa `m`
and exponent `e` is `m * 2 ^ e`. -/
inductive Binary where
  | finite (negative : Bool) (mantissa : Nat) (exponent : Int)
  | infinite (negative : Bool)
  | undefined
deriving DecidableEq

namespace Binary

/-- The least exponent of the format. -/
def leastExponent : Int := -1074

/-- The greatest exponent of a finite number of the format. -/
def greatestExponent : Int := 971

/-- The least mantissa of 53 bits; only numbers of the least exponent have a
lesser one. -/
def leastFullMantissa : Nat := 4503599627370496

/-- The number zero. -/
def zero : Binary := .finite false 0 leastExponent

/-- The number with its sign changed. -/
def negate : Binary → Binary
  | .finite negative mantissa exponent => .finite (!negative) mantissa exponent
  | .infinite negative => .infinite (!negative)
  | .undefined => .undefined

@[simp]
theorem negate_negate (number : Binary) : number.negate.negate = number := by
  cases number <;> simp [negate]

/-- The fraction `numerator / (denominator * 2 ^ exponent)` as a numerator and a
denominator. -/
def scaled (numerator denominator : Nat) : Int → Nat × Nat
  | .ofNat exponent => (numerator, denominator * Nat.pow 2 exponent)
  | .negSucc exponent => (numerator * Nat.pow 2 (exponent + 1), denominator)

/-- The exponent at which a positive fraction has a mantissa of 53 bits, or the
least exponent when the fraction is too small for one. -/
def exponentFor (numerator denominator : Nat) : Int :=
  let guess : Int := (numerator.log2 : Int) - (denominator.log2 : Int) - 52
  let atGuess := scaled numerator denominator guess
  let exponent := if atGuess.1 / atGuess.2 < leastFullMantissa then
    guess - 1 else guess
  if exponent < leastExponent then leastExponent else exponent

/-- The number of the format nearest to a fraction. -/
def ofFraction (numerator denominator : Nat) : Binary :=
  if numerator = 0 then zero
  else
    let exponent := exponentFor numerator denominator
    let fraction := scaled numerator denominator exponent
    let mantissa := roundHalfEven fraction.1 fraction.2
    let rounded : Nat × Int :=
      if mantissa = 2 * leastFullMantissa then (leastFullMantissa, exponent + 1)
      else (mantissa, exponent)
    if greatestExponent < rounded.2 then .infinite false
    else .finite false rounded.1 rounded.2

/-- The number of the format nearest to `digits * 10 ^ exponent`. -/
def ofScientific (digits : Nat) : Int → Binary
  | .ofNat exponent => ofFraction (digits * Nat.pow 10 exponent) 1
  | .negSucc exponent => ofFraction digits (Nat.pow 10 (exponent + 1))

/-- The magnitude of a finite number as a numerator and a denominator. -/
def fraction (mantissa : Nat) : Int → Nat × Nat
  | .ofNat exponent => (mantissa * Nat.pow 2 exponent, 1)
  | .negSucc exponent => (mantissa, Nat.pow 2 (exponent + 1))

/-- The quotient of a number without sign by a natural number, rounded to the
format. -/
def divideBy (divisor : Nat) : Binary → Binary
  | .finite negative mantissa exponent =>
      let magnitude := fraction mantissa exponent
      let quotient := ofFraction magnitude.1 (magnitude.2 * divisor)
      if negative then quotient.negate else quotient
  | other => other

end Binary

end EffectScript.Decimal
