import EffectScript.Builtin
import EffectScript.Chain
import EffectScript.DebugTables

/-!
# Values

Values of the language, the function templates that the compiler makes, and the
closures that the machine makes of them. Objects that are compared by identity
carry a number; a capture box is the number of a cell in the store of the
machine.
-/

namespace EffectScript

mutual

/-- A value of the language. -/
inductive Value where
  | nil
  | bool (value : Bool)
  | int (value : Int64)
  | str (text : String)
  | list (nodes : List (Node Value))
  /-- A map, by its entries in ascending order of their keys. -/
  | map (identity : Nat) (entries : List (String × Value))
  /-- A function template; it stands in constant pools only. -/
  | function (identity : Nat) (template : Template)
  | closure (closure : Closure)
  /-- A capture box, by the number of its cell. -/
  | box (cell : Nat)
  | exception (identity : Nat) (exception : Exception)
  | builtin (builtin : Builtin)

/-- A compiled function. Slot zero of its frames holds the running closure, the
parameters follow. -/
structure Template where
  name : String
  arity : Nat
  /-- The count of slots, slot zero included. -/
  locals : Nat
  code : Array UInt8
  constants : List Value
  /-- The names of globals and effects that operands refer to. -/
  names : List String
  debug : DebugTables
  /-- The slots of the enclosing frame whose boxes are captured. -/
  capturesOuter : List UInt8
  /-- The slots of the own frame that receive the captured boxes, in the same
  order. -/
  capturesInner : List UInt8
  /-- The slots that hold boxes, in ascending order. -/
  heapSlots : List UInt8

/-- A function with the boxes that it captured. -/
structure Closure where
  identity : Nat
  template : Template
  boxes : List Nat

end

namespace Template

/-- The constant at an index. -/
def constant? (template : Template) (index : UInt8) : Option Value :=
  template.constants[index.toNat]?

/-- The name at an index. -/
def name? (template : Template) (index : UInt8) : Option String :=
  template.names[index.toNat]?

end Template

namespace Value

/-- Whether the value counts as true in a condition. -/
def isTruthy : Value → Bool
  | .nil => false
  | .bool value => value
  | _ => true

/-- Whether the value is compared by its content alone. -/
def isScalar : Value → Bool
  | .nil | .bool _ | .int _ | .str _ => true
  | _ => false

/-- The name of the type of a value, under which its operator methods are
found. -/
def typeName : Value → String
  | .nil => "nil"
  | .bool _ => "bool"
  | .int _ => "int"
  | .str _ => "string"
  | .list _ => "list"
  | .map _ _ => "map"
  | .function _ _ => "function"
  | .closure _ => "closure"
  | .box _ => "box"
  | .exception _ _ => "exception"
  | .builtin _ => "builtin"

/-- The integer that a value is. -/
def int? : Value → Option Int64
  | .int value => some value
  | _ => none

/-- The text that a value is. -/
def str? : Value → Option String
  | .str text => some text
  | _ => none

/-- The list that a value is. -/
def list? : Value → Option (Chain Value)
  | .list nodes => some nodes
  | _ => none

/-- The map that a value is. -/
def map? : Value → Option (Dictionary String Value)
  | .map _ entries => some entries
  | _ => none

end Value

end EffectScript
