/-!
# Places in a source text

Lines and columns count from one; a column counts characters since the last line
feed.
-/

namespace EffectScript

/-- A place in a source text. -/
structure Position where
  line : Nat
  column : Nat
deriving DecidableEq

namespace Position

/-- The line as code remembers it, which is a number of 32 bits. -/
def debugLine (position : Position) : UInt32 :=
  UInt32.ofNat position.line

/-- The place of the first character. -/
def start : Position := ⟨1, 1⟩

/-- The place after one character that stands at the given place. -/
def advance (position : Position) (character : Char) : Position :=
  if character = '\n' then ⟨position.line + 1, 1⟩ else
    ⟨position.line, position.column + 1⟩

/-- The place after a text that begins at the given place. -/
def after (position : Position) (text : List Char) : Position :=
  text.foldl advance position

@[simp]
theorem after_nil (position : Position) : position.after [] = position := rfl

@[simp]
theorem after_cons (position : Position) (character : Char) (text : List Char) :
    position.after (character :: text) =
      (position.advance character).after text := rfl

@[simp]
theorem after_append (position : Position) (first second : List Char) :
    position.after (first ++ second) = (position.after first).after second := by
  simp [after]

/-- The place the given count of characters further right on the same line. -/
def right (position : Position) (count : Nat) : Position :=
  ⟨position.line, position.column + count⟩

@[simp]
theorem right_zero (position : Position) : position.right 0 = position := rfl

@[simp]
theorem line_right (position : Position) (count : Nat) :
    (position.right count).line = position.line := rfl

@[simp]
theorem column_right (position : Position) (count : Nat) :
    (position.right count).column = position.column + count := rfl

/-- A text without line feeds ends as many columns further right as it has
characters. -/
theorem after_eq_right
    (position : Position) (text : List Char)
    (flat : ∀ c ∈ text, c ≠ '\n') :
    position.after text = position.right text.length := by
  induction text generalizing position with
  | nil => rfl
  | cons character rest inductive_step =>
      have notFeed : character ≠ '\n' := flat character (by simp)
      rw [after_cons, inductive_step _ fun c member =>
        flat c (by simp [member])]
      simp [advance, notFeed, right, Nat.add_comm, Nat.add_left_comm]

end Position

end EffectScript
