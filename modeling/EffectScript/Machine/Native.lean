import EffectScript.Machine.Effects

/-!
# What native functions do

A native function runs to completion inside the call that invokes it. It gives a
value and the machine after it, or raises an exception.
-/

namespace EffectScript

/-- The argument as a text. -/
def Value.asText (value : Value) (function : String) :
    Except Exception String :=
  match value with
  | .str text => .ok text
  | other => .error (Exception.mismatch function "a string" other.typeName)

/-- The argument as a list. -/
def Value.asList (value : Value) (function : String) :
    Except Exception (Chain Value) :=
  match value with
  | .list nodes => .ok nodes
  | other => .error (Exception.mismatch function "a list" other.typeName)

/-- The argument as a map. -/
def Value.asMap (value : Value) (function : String) :
    Except Exception (Dictionary String Value) :=
  match value with
  | .map _ entries => .ok entries
  | other => .error (Exception.mismatch function "a map" other.typeName)

/-- The number as an integer of the language. -/
def Value.ofCount (count : Nat) : Value :=
  .int (Int64.ofNat count)

namespace Native

/-- Prints the display forms of values with blanks between them. -/
def print (machine : Machine) (values : List Value) :
    Except Exception (Value × Machine) :=
  let line := " ".intercalate
    (values.map fun value => value.display machine.store)
  match machine.outlet.writeLine line with
  | .ok outlet => .ok (.nil, { machine with outlet := outlet })
  | .error reason => .error (Exception.printFailed reason)

/-- The count of characters, elements or entries. -/
def len (value : Value) : Except Exception Value :=
  match value with
  | .str text => .ok (Value.ofCount text.length)
  | .list nodes => .ok (Value.ofCount nodes.length)
  | .map _ entries => .ok (Value.ofCount entries.length)
  | other => .error
      (Exception.mismatch "len" "a string, list or map" other.typeName)

/-- The element at an index. -/
def nth (list index : Value) : Except Exception Value := do
  let nodes ← list.asList "nth"
  match index with
  | .int number =>
      let found := if number.toInt < 0 then none else
        Chain.nth? nodes number.toInt.toNat
      match found with
      | some value => .ok value
      | none => .error (Exception.indexOutOfRange number.toInt nodes.length)
  | _ => .error Exception.indexNotInt

/-- The first element. -/
def head (list : Value) : Except Exception Value := do
  let nodes ← list.asList "head"
  match Chain.head? nodes with
  | some value => .ok value
  | none => .error Exception.headOfEmpty

/-- The list after the first element. -/
def tail (list : Value) : Except Exception Value := do
  let nodes ← list.asList "tail"
  match Chain.tail? nodes with
  | some rest => .ok (.list rest)
  | none => .error Exception.tailOfEmpty

/-- The entries that alternating keys and values make. -/
def pairs : List Value → Except Exception (List (String × Value))
  | key :: value :: rest => do
      let text ← key.asText "map"
      let others ← pairs rest
      return (text, value) :: others
  | _ => .ok []

/-- The kind of a new exception. -/
def exceptionKind (kind : Value) : Except Exception ExceptionKind := do
  let name ← kind.asText "exception"
  match ExceptionKind.ofName? name with
  | some kind => .ok kind
  | none => .error (Exception.unknownKind name)

/-- The exception that raising a value raises. -/
def raised (value : Value) : Exception :=
  match value with
  | .exception _ exception => exception.raisedAgain
  | .str message => Exception.raised message
  | other => Exception.cannotRaise other.typeName

/-- Whether a value can be an operator method. -/
def isMethod : Value → Bool
  | .closure _ | .builtin _ => true
  | _ => false

/-- Gives an operator method to a type. -/
def method (machine : Machine) (typeName operatorName callable : Value) :
    Except Exception Machine := do
  let type ← typeName.asText "method"
  let name ← operatorName.asText "method"
  match Operator.ofName? name with
  | none => .error (Exception.unknownOperator name)
  | some operator =>
      if isMethod callable then
        return { machine with methods :=
          machine.methods.define type operator callable }
      else .error (Exception.mismatch "method" "a function" callable.typeName)

end Native

/-- Runs a native function. A count of arguments that it does not take is
refused. -/
def Builtin.invoke
    (builtin : Builtin) (machine : Machine) (arguments : List Value) :
    Except Exception (Value × Machine) :=
  let unused := machine.store.unused
  match builtin, arguments with
  | .print, values => Native.print machine values
  | .len, [value] => do return (← Native.len value, machine)
  | .str, [value] => .ok (.str (value.display machine.store), machine)
  | .list, values =>
      .ok (.list (Chain.ofValues unused values), machine.take values.length)
  | .nth, [items, index] => do return (← Native.nth items index, machine)
  | .head, [items] => do return (← Native.head items, machine)
  | .tail, [items] => do return (← Native.tail items, machine)
  | .cons, [first, rest] => do
      let nodes ← rest.asList "cons"
      return (.list (Chain.cons unused first nodes), machine.take 1)
  | .map, values =>
      if values.length % 2 = 0 then do
        let entries ← Native.pairs values
        return (.map unused (Dictionary.ofEntries entries), machine.take 1)
      else .error Exception.unpairedKey
  | .put, [table, key, value] => do
      let entries ← table.asMap "put"
      let text ← key.asText "put"
      return (.map unused (entries.insert text value), machine.take 1)
  | .get, [table, key] => do
      let entries ← table.asMap "get"
      let text ← key.asText "get"
      return ((entries.find? text).getD .nil, machine)
  | .typeOf, [value] => .ok (.str value.typeName, machine)
  | .exception, [message] => do
      let text ← message.asText "exception"
      return (.exception unused ⟨.error, text, []⟩, machine.take 1)
  | .exception, [kindName, message] => do
      let kind ← Native.exceptionKind kindName
      let text ← message.asText "exception"
      return (.exception unused ⟨kind, text, []⟩, machine.take 1)
  | .raise, [value] => .error (Native.raised value)
  | .method, [typeName, operatorName, callable] => do
      return (.nil, ← Native.method machine typeName operatorName callable)
  | .resume, [value] => do return (value, ← machine.resume)
  | .listEq, [left, right] => .ok (.bool (left.eq right), machine)
  | .mapEq, [left, right] => .ok (.bool (left.eq right), machine)
  | other, values =>
      .error (Exception.wrongArity other.name other.arity.text values.length)

/-- Runs a native function after a look at the count of its arguments. -/
def Builtin.call
    (builtin : Builtin) (machine : Machine) (arguments : List Value) :
    Except Exception (Value × Machine) := do
  builtin.checkArity arguments.length
  builtin.invoke machine arguments

end EffectScript
