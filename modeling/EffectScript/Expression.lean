import EffectScript.Decimal.Binary
import EffectScript.Position

/-!
# Expressions

A program is a block, and a block is a sequence of expressions whose value is
the value of the last one. Every expression carries the place where it begins.
-/

namespace EffectScript

/-- Literals of the language. -/
inductive Literal where
  | int (value : Int64)
  | float (value : Decimal.Binary)
  | str (text : String)
  | bool (value : Bool)
  | nil
deriving DecidableEq

/-- Operators between two operands. -/
inductive BinaryOp where
  | add
  | sub
  | mul
  | div
  | eq
  | ne
  | lt
  | le
  | gt
  | ge
deriving DecidableEq

/-- Operators before one operand. -/
inductive UnaryOp where
  | neg
  | not
deriving DecidableEq

mutual

/-- Expressions. -/
inductive Expr where
  | ident (name : String) (position : Position)
  | literal (value : Literal) (position : Position)
  | binary (op : BinaryOp) (left right : Expr) (position : Position)
  | unary (op : UnaryOp) (operand : Expr) (position : Position)
  | call (callee : Expr) (arguments : List Expr) (position : Position)
  | assign (target value : Expr) (position : Position)
  /-- Defines a function under a name. -/
  | define (name : String) (parameters : List String) (body : Block)
      (position : Position)
  | block (body : Block)
  /-- Chooses between a block and, perhaps, an alternative. -/
  | branch (condition : Expr) (consequence : Block) (alternative : Option Expr)
      (position : Position)
  /-- Repeats a block while a condition holds. -/
  | loop (condition : Expr) (body : Block) (position : Position)
  /-- Runs a block under effect handlers. -/
  | attempt (body : Block) (clauses : List Clause) (position : Position)
  /-- Performs an effect, perhaps with a payload. -/
  | perform (effect : String) (payload : Option Expr) (position : Position)

/-- A sequence of expressions. -/
structure Block where
  expressions : List Expr
  position : Position

/-- What to do when an effect is performed. -/
structure Clause where
  effect : String
  parameter : String
  body : Block
  position : Position

end

namespace Expr

/-- Where the expression begins. -/
def position : Expr → Position
  | .ident _ position => position
  | .literal _ position => position
  | .binary _ _ _ position => position
  | .unary _ _ position => position
  | .call _ _ position => position
  | .assign _ _ position => position
  | .define _ _ _ position => position
  | .block body => body.position
  | .branch _ _ _ position => position
  | .loop _ _ position => position
  | .attempt _ _ position => position
  | .perform _ _ position => position

/-- What an error message calls the expression. -/
def kindName : Expr → String
  | .ident .. => "identifier"
  | .literal .. => "literal"
  | .binary .. => "binary expression"
  | .unary .. => "unary expression"
  | .call .. => "call"
  | .assign .. => "assignment"
  | .define .. => "function definition"
  | .block .. => "block"
  | .branch .. => "if expression"
  | .loop .. => "while loop"
  | .attempt .. => "try expression"
  | .perform .. => "do expression"

end Expr

end EffectScript
