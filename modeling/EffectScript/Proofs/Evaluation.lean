import EffectScript.Expression
import EffectScript.Lowering
import EffectScript.Machine.Native
import EffectScript.Proofs.Boxes
import EffectScript.Token.Lexer

/-!
# Evaluating expressions directly

A *simple* program is made of literals, global variables, operators, calls,
blocks, choices and repetitions. Its meaning needs no code: evaluating an
expression in a *world*, which is a machine without frames, gives a value and
the world afterwards, or raises an exception.

Integers are computed as mathematical integers and have to be in range
afterwards. Operands, callees and arguments are evaluated from left to right;
operator methods and native functions are applied to their arguments at once.
Only repetitions may go on forever, so evaluation is told how often a body may
be repeated.
-/

namespace EffectScript

/-! ## Outcomes -/

/-- What evaluating something in a world comes to. -/
inductive Evaluation (α : Type) where
  | value (result : α) (world : Machine)
  | raised (exception : Exception) (world : Machine)
  /-- A body was repeated as often as it may be. -/
  | unfinished

namespace Evaluation

variable {α β : Type}

/-- Goes on with a result. -/
def andThen (evaluation : Evaluation α) (next : α → Machine → Evaluation β) :
    Evaluation β :=
  match evaluation with
  | .value result world => next result world
  | .raised exception world => .raised exception world
  | .unfinished => .unfinished

/-- The evaluation with another result. -/
def withResult (evaluation : Evaluation α) (change : α → β) : Evaluation β :=
  evaluation.andThen fun result world => .value (change result) world

/-- A result that is known at once. -/
def ofExcept (outcome : Except Exception α) (world : Machine) : Evaluation α :=
  match outcome with
  | .ok result => .value result world
  | .error exception => .raised exception world

theorem withResult_andThen {γ : Type}
    (evaluation : Evaluation α)
    (next : α → Machine → Evaluation β)
    (change : β → γ) :
    (evaluation.andThen next).withResult change =
      evaluation.andThen fun result world =>
        (next result world).withResult change := by
  cases evaluation <;> rfl

/-- Repeats a body while a condition holds, at most `bound` times. -/
def iterate (condition body : Machine → Evaluation Value) :
    Nat → Machine → Evaluation Value
  | 0, _ => .unfinished
  | bound + 1, world =>
      (condition world).andThen fun decision decided =>
        if decision.isTruthy then
          (body decided).andThen fun _ repeated =>
            iterate condition body bound repeated
        else .value .nil decided

end Evaluation

/-! ## Operators -/

/-- Whether the value does not count as true. -/
def Value.negated (value : Value) : Value :=
  .bool (!value.isTruthy)

/-- Applies a function to arguments. -/
def Value.apply (callee : Value) (arguments : List Value) (world : Machine) :
    Evaluation Value :=
  match callee with
  | .builtin native =>
      match native.call world arguments with
      | .ok (result, after) => .value result after
      | .error raised => .raised raised world
  | other => .raised (Exception.notCallable other.typeName) world

namespace Operator

/-- The number as a value, if it is in the range of the integers of the
language. -/
def inRange (operator : Operator) (number : Int) : Except Exception Value :=
  if Integer.least ≤ number ∧ number ≤ Integer.greatest then
    .ok (.int (Int64.ofInt number))
  else .error (Exception.integerOverflow operator.name)

/-- Applies an operator to two mathematical integers. Division goes toward
zero. -/
def onNumbers (operator : Operator) (left right : Int) :
    Option (Except Exception Value) :=
  match operator with
  | .add => some (operator.inRange (left + right))
  | .sub => some (operator.inRange (left - right))
  | .mul => some (operator.inRange (left * right))
  | .div =>
      some (if right = 0 then .error Exception.divisionByZero
        else operator.inRange (left.tdiv right))
  | .eq => some (.ok (.bool (decide (left = right))))
  | .lt => some (.ok (.bool (decide (left < right))))
  | .gt => some (.ok (.bool (decide (right < left))))
  | .neg => none

/-- What an operator gives for two operands by itself; `none` when a method has
to say it. -/
def rule (operator : Operator) (unused : Nat) (left right : Value) :
    Option (Except Exception Value) :=
  match left, right with
  | .int left, .int right => operator.onNumbers left.toInt right.toInt
  | _, _ => operator.binary unused left right

/-- Applies an operator to two operands: by its rule, by a method, or by the
fallback. -/
def evaluate (operator : Operator) (left right : Value) (world : Machine) :
    Evaluation Value :=
  match operator.rule world.store.unused left right with
  | some (.ok result) =>
      .value result (world.take (operator.identitiesTaken left right))
  | some (.error exception) => .raised exception world
  | none =>
      match world.methods.find? left.typeName operator with
      | some method => method.apply [left, right] world
      | none => .ofExcept (operator.fallback left (some right)) world

end Operator

namespace BinaryOp

/-- Applies an operator of the source; three of them are negations of others. -/
def evaluate (op : BinaryOp) (left right : Value) (world : Machine) :
    Evaluation Value :=
  match op with
  | .add => Operator.add.evaluate left right world
  | .sub => Operator.sub.evaluate left right world
  | .mul => Operator.mul.evaluate left right world
  | .div => Operator.div.evaluate left right world
  | .eq => Operator.eq.evaluate left right world
  | .lt => Operator.lt.evaluate left right world
  | .gt => Operator.gt.evaluate left right world
  | .ne => (Operator.eq.evaluate left right world).withResult Value.negated
  | .le => (Operator.gt.evaluate left right world).withResult Value.negated
  | .ge => (Operator.lt.evaluate left right world).withResult Value.negated

end BinaryOp

/-- Applies a prefix operator. -/
def UnaryOp.evaluate (op : UnaryOp) (operand : Value) (world : Machine) :
    Evaluation Value :=
  match op, operand with
  | .not, operand => .value operand.negated world
  | .neg, .int number => .ofExcept (Operator.neg.inRange (-number.toInt)) world
  | .neg, operand =>
      match world.methods.find? operand.typeName .neg with
      | some method => method.apply [operand] world
      | none => .ofExcept (Operator.neg.fallback operand none) world

/-! ## Expressions -/

/-- The value of a literal; there are no values for floats. -/
def Literal.value? : Literal → Option Value
  | .int number => some (.int number)
  | .str text => some (.str text)
  | .bool truth => some (.bool truth)
  | .nil => some .nil
  | .float _ => none

mutual

/-- Evaluates a simple expression in a world; a body is repeated at most `bound`
times. -/
def Expr.evaluate (bound : Nat) : Expr → Machine → Evaluation Value
  | .ident name _, world =>
      match world.globals.find? name with
      | some value => .value value world
      | none => .raised (Exception.undefinedName name) world
  | .literal literal _, world =>
      match literal.value? with
      | some value => .value value world
      | none => .unfinished
  | .binary op left right _, world =>
      (left.evaluate bound world).andThen fun first afterLeft =>
        (right.evaluate bound afterLeft).andThen fun second afterRight =>
          op.evaluate first second afterRight
  | .unary op operand _, world =>
      (operand.evaluate bound world).andThen op.evaluate
  | .call callee arguments _, world =>
      (callee.evaluate bound world).andThen fun function afterCallee =>
        (evaluateArguments bound arguments afterCallee).andThen
            fun values afterArguments =>
          function.apply values afterArguments
  | .assign (.ident name _) value _, world =>
      (value.evaluate bound world).andThen fun result after =>
        .value .nil { after with globals := after.globals.insert name result }
  | .block body, world => body.evaluate bound world
  | .branch condition consequence alternative _, world =>
      (condition.evaluate bound world).andThen fun decision decided =>
        if decision.isTruthy then consequence.evaluate bound decided
        else evaluateOptional bound alternative decided
  | .loop condition body _, world =>
      Evaluation.iterate (fun before => condition.evaluate bound before)
        (fun before => body.evaluate bound before) bound world
  | .assign .., _ | .define .., _ | .attempt .., _ | .perform .., _ =>
      .unfinished

/-- Evaluates an expression that may be missing; then its value is nil. -/
def evaluateOptional (bound : Nat) : Option Expr → Machine → Evaluation Value
  | some expression, world => expression.evaluate bound world
  | none, world => .value .nil world

/-- Evaluates arguments from left to right. -/
def evaluateArguments (bound : Nat) :
    List Expr → Machine → Evaluation (List Value)
  | [], world => .value [] world
  | first :: others, world =>
      (first.evaluate bound world).andThen fun value afterFirst =>
        (evaluateArguments bound others afterFirst).withResult (value :: ·)

/-- Evaluates a block. -/
def Block.evaluate (bound : Nat) : Block → Machine → Evaluation Value
  | ⟨expressions, _⟩, world => evaluateSequence bound expressions world

/-- Evaluates expressions one after the other and gives the value of the last
one, or nil. -/
def evaluateSequence (bound : Nat) : List Expr → Machine → Evaluation Value
  | [], world => .value .nil world
  | first :: others, world =>
      (first.evaluate bound world).andThen fun value afterFirst =>
        if others.isEmpty then .value value afterFirst
        else evaluateSequence bound others afterFirst

end

/-! ## Simple programs -/

/-- Whether the text is a word of the source language. -/
def isIdentifier (name : String) : Bool :=
  match name.toList with
  | [] => false
  | first :: rest => Lexer.isWordStart first && rest.all Lexer.isWordPart

mutual

/-- Whether an expression is made of literals other than floats, identifiers
that can be read, assignments to identifiers, operators, calls, blocks, choices
and repetitions. -/
def Expr.isSimple : Expr → Bool
  | .ident name _ => isIdentifier name && name != wildcard
  | .literal literal _ => literal.value?.isSome
  | .binary _ left right _ => left.isSimple && right.isSimple
  | .unary _ operand _ => operand.isSimple
  | .call callee arguments _ => callee.isSimple && areSimple arguments
  | .assign (.ident name _) value _ => isIdentifier name && value.isSimple
  | .block body => body.isSimple
  | .branch condition consequence alternative _ =>
      condition.isSimple && consequence.isSimple && isSimpleOptional alternative
  | .loop condition body _ => condition.isSimple && body.isSimple
  | .assign .. | .define .. | .attempt .. | .perform .. => false

/-- Whether an expression is missing or simple. -/
def isSimpleOptional : Option Expr → Bool
  | some expression => expression.isSimple
  | none => true

/-- Whether all expressions are simple. -/
def areSimple : List Expr → Bool
  | [] => true
  | first :: others => first.isSimple && areSimple others

/-- Whether all expressions of a block are simple. -/
def Block.isSimple : Block → Bool
  | ⟨expressions, _⟩ => areSimple expressions

end

/-- The name of the script is no identifier, so no simple program can mention
it. -/
theorem ne_scriptName_of_isIdentifier {name : String}
    (identifier : isIdentifier name) :
    name ≠ scriptName := by
  rintro rfl
  revert identifier
  decide

end EffectScript
