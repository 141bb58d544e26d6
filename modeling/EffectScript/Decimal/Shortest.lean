import EffectScript.Decimal.Binary

/-!
# The fewest digits that read back

Between a number of the binary format and its two neighbours lies an interval of
fractions that all round to the number; its ends belong to it exactly when the
mantissa is even. The shortest decimal is the first one found when the grids of
one, two, three and more significant digits are searched in turn. On each grid
only the two points around the number can lie in the interval; the nearer one is
taken, and a tie rule chooses between two equally near ones.
-/

namespace EffectScript.Decimal

/-- A decimal number `digits * 10 ^ exponent`. -/
structure Digits where
  digits : Nat
  exponent : Int
deriving DecidableEq

/-- Which of two equally near decimals is taken: the greater one, or the one
with the even last digit. -/
inductive TieRule where
  | upward
  | toEven
deriving DecidableEq

/-- Whether a number between `lower` and its successor goes to `lower`; `rest /
whole` is its distance from there. -/
def TieRule.prefersLower (rule : TieRule) (lower rest whole : Nat) : Bool :=
  if 2 * rest = whole then rule = .toEven && lower % 2 = 0
  else 2 * rest < whole

/-- Removes zeros at the end of the digits, at most as many as `bound`. -/
def Digits.strip : Nat → Digits → Digits
  | 0, number => number
  | bound + 1, number =>
      if number.digits ≠ 0 ∧ number.digits % 10 = 0 then
        Digits.strip bound ⟨number.digits / 10, number.exponent + 1⟩
      else number

/-- How many decimal places a fraction below one starts with zeros, searched up
to `bound`. -/
def leadingZeros (denominator : Nat) : Nat → Nat → Nat
  | 0, _ => 0
  | bound + 1, numerator =>
      if denominator ≤ numerator * 10 then 0
      else leadingZeros denominator bound (numerator * 10) + 1

/-- The least power of ten above a positive fraction. -/
def magnitude (numerator denominator : Nat) : Int :=
  if denominator ≤ numerator then
    ((Nat.toDigits 10 (numerator / denominator)).length : Int)
  else -(leadingZeros denominator 400 numerator : Int)

/-- The fraction of `numerator / denominator` by `10 ^ exponent`, as a numerator
and a denominator. -/
def perPowerOfTen (numerator denominator : Nat) : Int → Nat × Nat
  | .ofNat exponent => (numerator, denominator * Nat.pow 10 exponent)
  | .negSucc exponent => (numerator * Nat.pow 10 (exponent + 1), denominator)

/-- The fractions that round to one number of the format, in quarters of the
last place of its mantissa. -/
structure Rounding where
  /-- The number itself. -/
  centre : Nat
  /-- The distance to the lower end. -/
  below : Nat
  /-- The distance to the upper end. -/
  above : Nat
  /-- Whether the ends round to the number too. -/
  closed : Bool

/-- The fractions that round to the number with the given mantissa and
exponent. -/
def Rounding.around (mantissa : Nat) (exponent : Int) : Rounding :=
  { centre := 4 * mantissa
    below :=
      if mantissa = Binary.leastFullMantissa ∧ Binary.leastExponent < exponent
        then 1 else 2
    above := 2
    closed := mantissa % 2 = 0 }

/-- Whether the interval holds a fraction, both given over one denominator in
which a quarter of the last place is `unit`. -/
def Rounding.holds (interval : Rounding) (unit point : Nat) : Bool :=
  let low := (interval.centre - interval.below) * unit
  let high := (interval.centre + interval.above) * unit
  if interval.closed then decide (low ≤ point) && decide (point ≤ high)
  else decide (low < point) && decide (point < high)

/-- The point of the grid of multiples of `10 ^ exponent` that lies in the
interval and next to the number, if there is one. -/
def gridPoint
    (rule : TieRule) (interval : Rounding)
    (numerator denominator : Nat)
    (exponent : Int) :
    Option Digits :=
  let scaled := perPowerOfTen numerator denominator exponent
  let unit := scaled.1 / interval.centre
  let lower := scaled.1 / scaled.2
  let lowerHolds := interval.holds unit (lower * scaled.2)
  let upperHolds := interval.holds unit ((lower + 1) * scaled.2)
  let towardsLower := rule.prefersLower lower (scaled.1 % scaled.2) scaled.2
  if lowerHolds && (towardsLower || !upperHolds) then some ⟨lower, exponent⟩
  else if upperHolds then some ⟨lower + 1, exponent⟩
  else none

/-- Searches the grids of `count` and more significant digits, `bound` of
them. -/
def searchGrids
    (rule : TieRule) (interval : Rounding)
    (numerator denominator : Nat)
    (top : Int) :
    Nat → Nat → Digits
  | 0, count =>
      let scaled := perPowerOfTen numerator denominator (top - count)
      ⟨roundHalfEven scaled.1 scaled.2, top - count⟩
  | bound + 1, count =>
      match gridPoint rule interval numerator denominator (top - count) with
      | some found => found
      | none => searchGrids rule interval numerator denominator top
          bound (count + 1)

/-- The shortest decimal that rounds to the number with the given positive
mantissa and exponent. -/
def shortest (rule : TieRule) (mantissa : Nat) (exponent : Int) : Digits :=
  if mantissa = 0 then ⟨0, 0⟩
  else
    let value := Binary.fraction mantissa exponent
    let interval := Rounding.around mantissa exponent
    let numerator := 4 * value.1
    let denominator := 4 * value.2
    let top := magnitude numerator denominator
    (searchGrids rule interval numerator denominator top 17 1).strip 20

end EffectScript.Decimal
