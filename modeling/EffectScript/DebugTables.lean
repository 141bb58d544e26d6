import EffectScript.Dictionary

/-!
# Debug tables

What a function's code remembers of its source: the line of every byte, the
names of the slots and the texts of the comment instructions. None of it is
needed to run the code.
-/

namespace EffectScript

/-- The debug tables of a function. -/
structure DebugTables where
  /-- The source line of every code byte. -/
  lines : Array UInt32 := #[]
  /-- The names of the slots, in the order of their declaration. -/
  slotNames : List (String × UInt8) := []
  /-- The texts of the comment instructions by their offsets. -/
  comments : Dictionary Nat String := []
deriving DecidableEq

namespace DebugTables

/-- Records the line of further code bytes. -/
def addLine (tables : DebugTables) (line : UInt32) (size : Nat) : DebugTables :=
  { tables with lines := tables.lines ++ Array.replicate size line }

@[simp]
theorem lines_addLine (tables : DebugTables) (line : UInt32) (size : Nat) :
    (tables.addLine line size).lines = tables.lines ++
      Array.replicate size line := rfl

@[simp]
theorem slotNames_addLine (tables : DebugTables) (line : UInt32) (size : Nat) :
    (tables.addLine line size).slotNames = tables.slotNames := rfl

@[simp]
theorem comments_addLine (tables : DebugTables) (line : UInt32) (size : Nat) :
    (tables.addLine line size).comments = tables.comments := rfl

/-- The line of a code byte; zero where none is recorded. -/
def lineAt (tables : DebugTables) (offset : Nat) : UInt32 :=
  tables.lines[offset]?.getD 0

/-- Records the name of a slot. -/
def addSlotName (tables : DebugTables) (name : String) (slot : UInt8) :
    DebugTables :=
  { tables with slotNames := tables.slotNames ++ [(name, slot)] }

/-- The first name recorded for a slot. -/
def slotName? (tables : DebugTables) (slot : UInt8) : Option String :=
  (tables.slotNames.find? fun entry => entry.2 = slot).map (·.1)

/-- Records the text of the comment at an offset. -/
def addComment (tables : DebugTables) (offset : Nat) (text : String) :
    DebugTables :=
  { tables with comments := tables.comments.insert offset text }

/-- The text of the comment at an offset. -/
def commentAt? (tables : DebugTables) (offset : Nat) : Option String :=
  tables.comments.find? offset

end DebugTables

end EffectScript
