import EffectScript.Exception

/-!
# Native functions

The functions that the machine itself provides, with their names and the counts
of arguments that they take.
-/

namespace EffectScript

/-- The native functions. -/
inductive Builtin where
  | print
  | len
  | str
  | list
  | nth
  | head
  | tail
  | cons
  | map
  | put
  | get
  | typeOf
  | exception
  | raise
  | method
  | resume
  /-- Equality of lists; reached through the method table only. -/
  | listEq
  /-- Equality of maps; reached through the method table only. -/
  | mapEq
deriving DecidableEq

/-- How many arguments a function takes. -/
inductive Arity where
  | exactly (count : Nat)
  | atLeast (least : Nat)
  | between (least greatest : Nat)
deriving DecidableEq

namespace Arity

/-- Whether the function takes the given count of arguments. -/
def accepts (arity : Arity) (given : Nat) : Bool :=
  match arity with
  | .exactly count => given == count
  | .atLeast least => decide (least ≤ given)
  | .between least greatest =>
      decide (least ≤ given) && decide (given ≤ greatest)

/-- The wording of an arity. -/
def text : Arity → String
  | .exactly count => toString count
  | .atLeast least => "at least " ++ toString least
  | .between least greatest => toString least ++ " to " ++ toString greatest

end Arity

namespace Builtin

/-- The native functions that every machine has as globals. -/
def globals : List Builtin :=
  [.print, .len, .str, .list, .nth, .head, .tail, .cons, .map, .put, .get,
    .typeOf, .exception, .raise, .method, .resume]

/-- The name of a native function. -/
def name : Builtin → String
  | .print => "print"
  | .len => "len"
  | .str => "str"
  | .list => "list"
  | .nth => "nth"
  | .head => "head"
  | .tail => "tail"
  | .cons => "cons"
  | .map => "map"
  | .put => "put"
  | .get => "get"
  | .typeOf => "type_of"
  | .exception => "exception"
  | .raise => "raise"
  | .method => "method"
  | .resume => "resume"
  | .listEq => "list_eq"
  | .mapEq => "map_eq"

/-- The native function with the given name. -/
def ofName? (name : String) : Option Builtin :=
  (globals ++ [listEq, mapEq]).find? fun builtin => builtin.name = name

@[simp]
theorem ofName?_name (builtin : Builtin) :
    ofName? builtin.name = some builtin := by
  cases builtin <;> decide

/-- How many arguments a native function takes. -/
def arity : Builtin → Arity
  | .print | .list | .map => .atLeast 0
  | .len | .str | .head | .tail | .typeOf | .raise | .resume => .exactly 1
  | .nth | .cons | .get | .listEq | .mapEq => .exactly 2
  | .put | .method => .exactly 3
  | .exception => .between 1 2

/-- Refuses a wrong count of arguments. -/
def checkArity (builtin : Builtin) (given : Nat) : Except Exception Unit :=
  if builtin.arity.accepts given then .ok ()
  else .error (Exception.wrongArity builtin.name builtin.arity.text given)

end Builtin

end EffectScript
