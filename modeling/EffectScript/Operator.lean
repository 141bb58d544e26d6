import EffectScript.Integer
import EffectScript.Opcode
import EffectScript.Value.Equality

/-!
# Operators

The operators that the machine knows by itself, the rules for operands that they
cover, and what happens when neither a rule nor a method covers them.
-/

namespace EffectScript

/-- The operators that methods can be given for. -/
inductive Operator where
  | add
  | sub
  | mul
  | div
  | eq
  | lt
  | gt
  | neg
deriving DecidableEq

namespace Operator

/-- The name under which methods are given for the operator. -/
def name : Operator → String
  | .add => "add"
  | .sub => "sub"
  | .mul => "mul"
  | .div => "div"
  | .eq => "eq"
  | .lt => "lt"
  | .gt => "gt"
  | .neg => "neg"

/-- The operator with the given name. -/
def ofName? (name : String) : Option Operator :=
  [add, sub, mul, div, eq, lt, gt, neg].find? fun operator =>
    operator.name = name

@[simp]
theorem ofName?_name (operator : Operator) :
    ofName? operator.name = some operator := by
  cases operator <;> decide

/-- The operator that an operation applies. -/
def ofOpcode? : Opcode → Option Operator
  | .add => some .add
  | .sub => some .sub
  | .mul => some .mul
  | .div => some .div
  | .eq => some .eq
  | .lt => some .lt
  | .gt => some .gt
  | .neg => some .neg
  | _ => none

/-- What an error message says the operator does. -/
def verb : Operator → String
  | .add => "add"
  | .sub => "subtract"
  | .mul => "multiply"
  | .div => "divide"
  | .eq => "compare"
  | .lt | .gt => "order"
  | .neg => "negate"

/-- The integer as a value of the language, if it is in range. -/
def checked (operator : Operator) (result : Int) : Except Exception Value :=
  match Integer.ofInt? result with
  | some value => .ok (.int value)
  | none => .error (Exception.integerOverflow operator.name)

/-- Applies an operator to two integers; `none` when no rule covers it. -/
def onIntegers (operator : Operator) (left right : Int64) :
    Option (Except Exception Value) :=
  match operator with
  | .add => some (operator.checked (left.toInt + right.toInt))
  | .sub => some (operator.checked (left.toInt - right.toInt))
  | .mul => some (operator.checked (left.toInt * right.toInt))
  | .div =>
      if right.toInt = 0 then some (.error Exception.divisionByZero)
      else some (operator.checked (left.toInt.tdiv right.toInt))
  | .lt => some (.ok (.bool (decide (left.toInt < right.toInt))))
  | .gt => some (.ok (.bool (decide (right.toInt < left.toInt))))
  | .eq | .neg => none

/-- Applies an operator to two texts; `none` when no rule covers it. -/
def onTexts (operator : Operator) (left right : String) :
    Option (Except Exception Value) :=
  match operator with
  | .add => some (.ok (.str (left ++ right)))
  | .lt => some (.ok (.bool (decide (left < right))))
  | .gt => some (.ok (.bool (decide (right < left))))
  | _ => none

/-- Applies an operator to two operands by the rules of the language; `none`
when no rule covers them. A new list takes identities from `unused` on. -/
def binary (operator : Operator) (unused : Nat) (left right : Value) :
    Option (Except Exception Value) :=
  if operator = .eq then
    if left.isScalar && right.isScalar then
      some (.ok (.bool (left.eq right))) else none
  else
    match left, right with
    | .int left, .int right => operator.onIntegers left right
    | .str left, .str right => operator.onTexts left right
    | .list left, .list right =>
        if operator = .add then
          some (.ok (.list (Chain.append unused left right))) else none
    | _, _ => none

/-- How many identities the rule for two operands takes. -/
def identitiesTaken (operator : Operator) (left right : Value) : Nat :=
  match operator, left, right with
  | .add, .list nodes, .list _ => nodes.length
  | _, _, _ => 0

/-- Applies an operator to one operand by the rules of the language; `none` when
no rule covers it. -/
def unary (operator : Operator) (operand : Value) :
    Option (Except Exception Value) :=
  match operator, operand with
  | .neg, .int value => some (operator.checked (-value.toInt))
  | _, _ => none

/-- The result of an operator for which there is neither a rule nor a method:
equality asks for identity, everything else is refused. -/
def fallback (operator : Operator) (left : Value) (right : Option Value) :
    Except Exception Value :=
  match right with
  | some other =>
      if operator = .eq then .ok (.bool (left.same other))
      else .error (Exception.cannotOperate operator.verb
        (left.typeName ++ " and " ++ other.typeName))
  | none => .error (Exception.cannotOperate operator.verb left.typeName)

end Operator

end EffectScript
