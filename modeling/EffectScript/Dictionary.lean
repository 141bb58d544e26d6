/-!
# Dictionaries

A dictionary holds its entries in strictly ascending order of their keys, so
that two dictionaries with the same entries are equal however they were built.
-/

namespace EffectScript

/-- Entries in ascending order of their keys. -/
abbrev Dictionary (κ α : Type) := List (κ × α)

namespace Dictionary

variable {κ α : Type} [DecidableEq κ]

/-- The value under a key. -/
def find? (dictionary : Dictionary κ α) (key : κ) : Option α :=
  match dictionary with
  | [] => none
  | (other, value) :: rest => if key = other then some value else find? rest key

/-- The dictionary with a value under a key, in place of the one that was
there. -/
def insert [LT κ] [DecidableLT κ]
    (dictionary : Dictionary κ α)
    (key : κ) (value : α) :
    Dictionary κ α :=
  match dictionary with
  | [] => [(key, value)]
  | (other, held) :: rest =>
      if key = other then (key, value) :: rest
      else if key < other then (key, value) :: (other, held) :: rest
      else (other, held) :: insert rest key value

/-- The dictionary with the given entries; of two entries under one key the
later one counts. -/
def ofEntries [LT κ] [DecidableLT κ] (entries : List (κ × α)) :
    Dictionary κ α :=
  entries.foldl (fun dictionary entry => dictionary.insert entry.1 entry.2) []

@[simp]
theorem find?_insert_self [LT κ] [DecidableLT κ]
    (dictionary : Dictionary κ α)
    (key : κ) (value : α) :
    (dictionary.insert key value).find? key = some value := by
  induction dictionary with
  | nil => simp [insert, find?]
  | cons entry rest kept =>
      simp only [insert]
      split
      · simp [find?]
      next different =>
        split
        · simp [find?]
        · simpa [find?, different] using kept

theorem find?_insert_of_ne [LT κ] [DecidableLT κ]
    (dictionary : Dictionary κ α)
    {key other : κ}
    (value : α) (different : other ≠ key) :
    (dictionary.insert key value).find? other = dictionary.find? other := by
  induction dictionary with
  | nil => simp [insert, find?, different]
  | cons entry rest kept =>
      simp only [insert]
      split
      next equal => simp [find?, ← equal, different]
      next =>
        split
        · simp [find?, different]
        · simp [find?, kept]

end Dictionary

end EffectScript
