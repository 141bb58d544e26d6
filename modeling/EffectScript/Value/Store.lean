import EffectScript.Value

/-!
# The store

Cells for the contents of capture boxes, and the supply of identities for new
objects.
-/

namespace EffectScript

/-- The cells of all boxes made so far and the first identity that no object
has. -/
structure Store where
  cells : Array Value := #[]
  unused : Nat := 0

namespace Store

/-- A new box with the given content. -/
def newBox (store : Store) (content : Value) : Nat × Store :=
  (store.cells.size, { store with cells := store.cells.push content })

/-- The content of a box. -/
def read (store : Store) (cell : Nat) : Value :=
  store.cells[cell]?.getD .nil

/-- The store with a new content in a box. -/
def write (store : Store) (cell : Nat) (content : Value) : Store :=
  { store with cells := store.cells.setIfInBounds cell content }

/-- The store with the given count of identities taken from its supply. -/
def take (store : Store) (count : Nat) : Store :=
  { store with unused := store.unused + count }

@[simp]
theorem read_newBox (store : Store) (content : Value) :
    (store.newBox content).2.read (store.newBox content).1 = content := by
  simp [newBox, read]

/-- A new box does not change the content of another one. -/
theorem read_newBox_of_lt
    (store : Store) (content : Value)
    {cell : Nat}
    (present : cell < store.cells.size) :
    (store.newBox content).2.read cell = store.read cell := by
  simp [newBox, read, Array.getElem?_push, Nat.ne_of_lt present]

/-- Writing a box gives it the content. -/
theorem read_write_self
    (store : Store) (content : Value)
    {cell : Nat}
    (present : cell < store.cells.size) :
    (store.write cell content).read cell = content := by
  simp [write, read, present]

/-- Writing a box changes no other one. -/
theorem read_write_of_ne
    (store : Store) (content : Value)
    {cell other : Nat}
    (different : cell ≠ other) :
    (store.write cell content).read other = store.read other := by
  simp [write, read, different]

end Store

end EffectScript
