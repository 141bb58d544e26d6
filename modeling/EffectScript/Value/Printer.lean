import EffectScript.Text.Quoted
import EffectScript.Value.Store

/-!
# Values as text

A value has a display form, which is what printing shows, and an inspection
form, which also names its variant. Inside containers texts are quoted. The
content of a box comes from the store; the functions on values alone take the
text of boxes as an argument.
-/

namespace EffectScript

mutual

/-- The display form of a value. -/
def Value.displayWith (boxText : Nat → String) : Value → String
  | .nil => "nil"
  | .bool value => if value then "true" else "false"
  | .int value => toString value.toInt
  | .str text => text
  | .list nodes => "[" ++ ", ".intercalate (displayNodes boxText nodes) ++ "]"
  | .map _ entries =>
      "\x7b" ++ ", ".intercalate (displayEntries boxText entries) ++ "\x7d"
  | .function _ template => "<fn " ++ template.name ++ ">"
  | .closure closure => "<fn " ++ closure.template.name ++ ">"
  | .box cell => "<box " ++ boxText cell ++ ">"
  | .exception _ exception => exception.text
  | .builtin builtin => "<builtin " ++ builtin.name ++ ">"

/-- The elements of a list. -/
def displayNodes (boxText : Nat → String) : List (Node Value) → List String
  | [] => []
  | node :: nodes => displayNode boxText node :: displayNodes boxText nodes

/-- One element of a list; a text is quoted. -/
def displayNode (boxText : Nat → String) : Node Value → String
  | ⟨_, .str text⟩ => Text.quote text
  | ⟨_, value⟩ => value.displayWith boxText

/-- The entries of a map. -/
def displayEntries (boxText : Nat → String) :
    List (String × Value) → List String
  | [] => []
  | entry :: entries =>
      displayEntry boxText entry :: displayEntries boxText entries

/-- One entry of a map; a text is quoted, a key is not. -/
def displayEntry (boxText : Nat → String) : String × Value → String
  | (key, .str text) => key ++ ": " ++ Text.quote text
  | (key, value) => key ++ ": " ++ value.displayWith boxText

end

/-- The form of a value inside a container: texts are quoted. -/
def Value.reprWith (boxText : Nat → String) (value : Value) : String :=
  match value with
  | .str text => Text.quote text
  | other => other.displayWith boxText

mutual

/-- The inspection form of a value. -/
def Value.inspectWith (boxText : Nat → String) : Value → String
  | .nil => "Nil"
  | .bool value => if value then "Bool(true)" else "Bool(false)"
  | .int value => "Int(" ++ toString value.toInt ++ ")"
  | .str text => "Str(" ++ Text.quote text ++ ")"
  | .list nodes => "List([" ++ ", ".intercalate
      (inspectNodes boxText nodes) ++ "])"
  | .map _ entries =>
      "Map(\x7b" ++ ", ".intercalate (inspectEntries boxText entries) ++ "\x7d)"
  | .function _ template => "Function(" ++ template.name ++ ")"
  | .closure closure => "Closure(" ++ closure.template.name ++ ")"
  | .box cell => "Box(" ++ boxText cell ++ ")"
  | .exception _ exception => "Exception(" ++ exception.text ++ ")"
  | .builtin builtin => "Builtin(" ++ builtin.name ++ ")"

/-- The elements of a list. -/
def inspectNodes (boxText : Nat → String) : List (Node Value) → List String
  | [] => []
  | node :: nodes => inspectNode boxText node :: inspectNodes boxText nodes

/-- One element of a list. -/
def inspectNode (boxText : Nat → String) : Node Value → String
  | ⟨_, value⟩ => value.inspectWith boxText

/-- The entries of a map. -/
def inspectEntries (boxText : Nat → String) :
    List (String × Value) → List String
  | [] => []
  | entry :: entries =>
      inspectEntry boxText entry :: inspectEntries boxText entries

/-- One entry of a map. -/
def inspectEntry (boxText : Nat → String) : String × Value → String
  | (key, value) => Text.quote key ++ ": " ++ value.inspectWith boxText

end

namespace Store

/-- The text of a box in display forms; boxes inside boxes are followed to the
given depth. -/
def boxDisplay (store : Store) : Nat → Nat → String
  | 0, _ => ""
  | depth + 1, cell => (store.read cell).reprWith (store.boxDisplay depth)

/-- The text of a box in inspection forms; boxes inside boxes are followed to
the given depth. -/
def boxInspection (store : Store) : Nat → Nat → String
  | 0, _ => ""
  | depth + 1, cell => (store.read cell).inspectWith (store.boxInspection depth)

end Store

namespace Value

/-- The display form of a value. -/
def display (store : Store) (value : Value) : String :=
  value.displayWith (store.boxDisplay store.cells.size)

/-- The form of a value inside a container. -/
def repr (store : Store) (value : Value) : String :=
  value.reprWith (store.boxDisplay store.cells.size)

/-- The inspection form of a value. -/
def inspect (store : Store) (value : Value) : String :=
  value.inspectWith (store.boxInspection store.cells.size)

end Value

end EffectScript
