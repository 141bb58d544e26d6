import EffectScript.Decimal.Shortest

/-!
# Decimal layout

Numbers are written either positionally or with a power of ten, always so that
the text shows that it is not a whole number: `1.0`, `0.1`, `1e16`, `2.5e-6`. A
layout says for which magnitudes the positional form is used. The module also
writes a number to a fixed count of places and reads decimals.
-/

namespace EffectScript.Decimal

/-- Which powers of ten of the leading digit are written positionally, and how
ties are broken. -/
structure Layout where
  leastPositional : Int
  greatestPositional : Int
  ties : TieRule

/-- Numbers of the language: positional from `1e-4` up to, but not including,
`1e16`. -/
def Layout.literal : Layout := ⟨-4, 15, .upward⟩

/-- Numbers of a report: positional from `1e-5` up to, but not including,
`1e16`. -/
def Layout.report : Layout := ⟨-5, 15, .toEven⟩

/-- The decimal digits of a number as a text. -/
def digitText (number : Nat) : List Char :=
  Nat.toDigits 10 number

/-- Writes digits with the point after the first `whole` of them. -/
def positional (digits : List Char) (whole : Int) : String :=
  let count : Int := digits.length
  if count ≤ whole then
    String.ofList (digits ++ List.replicate (whole - count).toNat '0') ++ ".0"
  else if 0 < whole then
    String.ofList (digits.take whole.toNat) ++ "." ++
      String.ofList (digits.drop whole.toNat)
  else "0." ++ String.ofList (List.replicate (-whole).toNat '0' ++ digits)

/-- Writes digits with the point after the first of them, and a power of ten. -/
def scientific (digits : List Char) (power : Int) : String :=
  let mantissa :=
    match digits with
    | [] => "0"
    | [single] => single.toString
    | first :: rest => first.toString ++ "." ++ String.ofList rest
  mantissa ++ "e" ++ toString power

/-- Writes a decimal number without sign. -/
def Layout.writeDigits (layout : Layout) (number : Digits) : String :=
  let digits := digitText number.digits
  let power : Int := (digits.length : Int) + number.exponent - 1
  if number.digits = 0 then "0.0"
  else if layout.leastPositional ≤ power ∧
    power ≤ layout.greatestPositional then
    positional digits (power + 1)
  else scientific digits power

/-- Writes a number of the binary format with the fewest digits that read
back. -/
def Layout.write (layout : Layout) : Binary → String
  | .finite negative mantissa exponent =>
      (if negative then "-" else "") ++ layout.writeDigits
        (shortest layout.ties mantissa exponent)
  | .infinite negative => if negative then "-inf" else "inf"
  | .undefined => "NaN"

/-- Writes the exact value of a number without sign to the given count of
places, a half to the even neighbour. -/
def writeFixed (places : Nat) : Binary → String
  | .finite negative mantissa exponent =>
      let value := Binary.fraction mantissa exponent
      let units := roundHalfEven (value.1 * Nat.pow 10 places) value.2
      let digits := digitText (units % Nat.pow 10 places)
      (if negative then "-" else "") ++
        toString (units / Nat.pow 10 places) ++ "." ++
        String.ofList (List.replicate (places - digits.length) '0' ++ digits)
  | .infinite negative => if negative then "-inf" else "inf"
  | .undefined => "NaN"

/-- The value of a run of decimal digits. -/
def readDigits (digits : List Char) : Nat :=
  digits.foldl (fun value digit => 10 * value + (digit.toNat - '0'.toNat)) 0

/-- The number nearest to the decimal with the given digits before and after the
point. -/
def ofPlaces (whole places : List Char) : Binary :=
  Binary.ofScientific (readDigits (whole ++ places)) (-(places.length : Int))

/-- Reads an optional sign. -/
def splitSign : List Char → Bool × List Char
  | '-' :: rest => (true, rest)
  | '+' :: rest => (false, rest)
  | rest => (false, rest)

/-- Reads a number without sign: digits, perhaps a point with digits, perhaps a
power of ten. -/
def readMagnitude? (text : List Char) : Option Binary :=
  let whole := text.takeWhile Char.isDigit
  let afterWhole := text.dropWhile Char.isDigit
  let places :=
    match afterWhole with
    | '.' :: rest => rest.takeWhile Char.isDigit
    | _ => []
  let afterPlaces :=
    match afterWhole with
    | '.' :: rest => rest.dropWhile Char.isDigit
    | rest => rest
  if whole.isEmpty && places.isEmpty then none
  else
    match afterPlaces with
    | [] => some (ofPlaces whole places)
    | mark :: power =>
        let signed := splitSign power
        if (mark = 'e' || mark = 'E') && !signed.2.isEmpty &&
          signed.2.all Char.isDigit then
          let size : Int := readDigits signed.2
          let shift := if signed.1 then -size else size
          some (Binary.ofScientific (readDigits (whole ++ places))
            (shift - places.length))
        else none

/-- Reads a number as `Layout.write` writes it, in any layout. -/
def Binary.read? (text : String) : Option Binary :=
  let signed := splitSign text.toList
  let unsigned :=
    if signed.2 = "inf".toList then some (.infinite false)
    else if signed.2 = "NaN".toList then some .undefined
    else readMagnitude? signed.2
  unsigned.map fun number => if signed.1 then number.negate else number

end EffectScript.Decimal
