/-!
# Integers of the language

The language has the integers of 64 bits with a sign. A number outside their
range is no value; it is never wrapped around.
-/

namespace EffectScript.Integer

/-- The least integer of the language. -/
def least : Int := -9223372036854775808

/-- The greatest integer of the language. -/
def greatest : Int := 9223372036854775807

/-- The integer of the language that a number is, if it is in range. -/
def ofInt? (number : Int) : Option Int64 :=
  if least ≤ number ∧ number ≤ greatest then some (Int64.ofInt number) else none

theorem ofInt?_isSome {number : Int} :
    (ofInt? number).isSome = true ↔ least ≤ number ∧ number ≤ greatest := by
  unfold ofInt?
  split <;> simp_all

/-- An integer of the language is the number that it was made of. -/
theorem toInt_of_ofInt? {number : Int} {value : Int64}
    (made : ofInt? number = some value) :
    value.toInt = number := by
  unfold ofInt? at made
  split at made
  next inRange =>
    cases made
    obtain ⟨low, high⟩ := inRange
    simp only [least, greatest] at low high
    exact Int64.toInt_ofInt_of_le (by omega) (by omega)
  next => cases made

@[simp]
theorem ofInt?_toInt (value : Int64) : ofInt? value.toInt = some value := by
  have low := value.le_toInt
  have high := value.toInt_lt
  have inRange : least ≤ value.toInt ∧ value.toInt ≤ greatest := by
    simp only [least, greatest]
    omega
  simp [ofInt?, inRange]

end EffectScript.Integer
