/-!
# Errors of the compiler

A program can hold what the code format has no form for, or more of something
than the operands of the format can count.
-/

namespace EffectScript

/-- What one function can hold only so many of. -/
inductive Resource where
  | locals
  | constants
  | names
  | arguments
  | handlers
  | jumpBytes
  | loopBytes
deriving DecidableEq

namespace Resource

/-- The greatest count of a resource. -/
def limit : Resource → Nat
  | .locals | .constants | .names => 256
  | .arguments | .handlers => 255
  | .jumpBytes | .loopBytes => 65535

/-- The wording of a resource. -/
def text : Resource → String
  | .locals => "locals"
  | .constants => "constants"
  | .names => "names"
  | .arguments => "arguments"
  | .handlers => "handlers"
  | .jumpBytes => "bytes to jump over"
  | .loopBytes => "bytes in loop body"

end Resource

/-- Why a program does not compile, with the line at fault. -/
inductive CompileError where
  | floatLiteral (line : UInt32)
  /-- An assignment to something that is no name. -/
  | assignmentTo (kindName : String) (line : UInt32)
  | tooMany (resource : Resource) (line : UInt32)
  /-- A read of the placeholder name. -/
  | unresolved (name : String) (line : UInt32)
deriving DecidableEq

namespace CompileError

/-- The line at fault. -/
def line : CompileError → UInt32
  | .floatLiteral line => line
  | .assignmentTo _ line => line
  | .tooMany _ line => line
  | .unresolved _ line => line

/-- The wording of the cause. -/
def cause : CompileError → String
  | .floatLiteral _ => "cannot compile float literal"
  | .assignmentTo kindName _ => "cannot compile assignment to " ++ kindName
  | .tooMany resource _ =>
      "too many " ++ resource.text ++ " in one function (limit " ++
        toString resource.limit ++ ")"
  | .unresolved name _ => "cannot resolve '" ++ name ++ "'"

/-- The wording of an error. -/
def message (error : CompileError) : String :=
  "line " ++ toString error.line ++ ": " ++ error.cause

end CompileError

end EffectScript
