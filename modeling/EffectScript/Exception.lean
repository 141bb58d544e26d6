/-!
# Exceptions of the language

An exception has a kind and a message, and gathers a trace of the calls it
leaves, the innermost one first. Every exception that the machine raises by
itself is worded here.
-/

namespace EffectScript

/-- The kinds of exceptions. -/
inductive ExceptionKind where
  | typeError
  | undefinedName
  | error
deriving DecidableEq

namespace ExceptionKind

/-- The name of a kind. -/
def name : ExceptionKind → String
  | .typeError => "TypeError"
  | .undefinedName => "UndefinedName"
  | .error => "Error"

/-- The kind with the given name. -/
def ofName? (name : String) : Option ExceptionKind :=
  [typeError, undefinedName, error].find? fun kind => kind.name = name

@[simp]
theorem ofName?_name (kind : ExceptionKind) :
    ofName? kind.name = some kind := by
  cases kind <;> decide

end ExceptionKind

/-- One call of a trace: the function and the line it had reached. -/
structure TraceEntry where
  function : String
  line : UInt32
deriving DecidableEq

/-- How a report writes a call. -/
def TraceEntry.text (entry : TraceEntry) : String :=
  entry.function ++ " (line " ++ toString entry.line ++ ")"

/-- An exception of the language. -/
structure Exception where
  kind : ExceptionKind
  message : String
  trace : List TraceEntry := []
deriving DecidableEq

namespace Exception

/-- The kind and the message of an exception. -/
def text (exception : Exception) : String :=
  exception.kind.name ++ ": " ++ exception.message

/-! ## What the machine raises -/

/-- A name that has no value. -/
def undefinedName (name : String) : Exception :=
  ⟨.undefinedName, "undefined name '" ++ name ++ "'", []⟩

/-- A result outside the range of the integers. -/
def integerOverflow (operator : String) : Exception :=
  ⟨.typeError, "integer overflow in " ++ operator, []⟩

/-- A division by zero. -/
def divisionByZero : Exception :=
  ⟨.error, "division by zero", []⟩

/-- Operands that an operator does not know. -/
def cannotOperate (verb operands : String) : Exception :=
  ⟨.typeError, "cannot " ++ verb ++ " " ++ operands, []⟩

/-- A call with the wrong count of arguments. -/
def wrongArity (function expected : String) (given : Nat) : Exception :=
  ⟨.typeError, function ++ " expects " ++ expected ++ " arguments, got " ++
    toString given, []⟩

/-- A call of something that is no function. -/
def notCallable (typeName : String) : Exception :=
  ⟨.typeError, typeName ++ " is not callable", []⟩

/-- A handler that is no function. -/
def handlerNotFunction (effect typeName : String) : Exception :=
  ⟨.typeError, "handler for '" ++ effect ++ "' must be a function, got " ++
    typeName, []⟩

/-- A `resume` that no handler is running for. -/
def resumeOutsideHandler : Exception :=
  ⟨.typeError, "resume called outside of an effect handler", []⟩

/-- An argument of the wrong type. -/
def mismatch (function expected typeName : String) : Exception :=
  ⟨.typeError, function ++ " expects " ++ expected ++ ", got " ++ typeName, []⟩

/-- An output that refuses text. -/
def printFailed (reason : String) : Exception :=
  ⟨.error, "print failed: " ++ reason, []⟩

/-- An index of the wrong type. -/
def indexNotInt : Exception :=
  ⟨.typeError, "nth expects an int index", []⟩

/-- An index outside a list. -/
def indexOutOfRange (index : Int) (length : Nat) : Exception :=
  ⟨.error, "index " ++ toString index ++ " out of range for list of length " ++
    toString length, []⟩

/-- The first element of a list without elements. -/
def headOfEmpty : Exception :=
  ⟨.error, "head of empty list", []⟩

/-- The rest of a list without elements. -/
def tailOfEmpty : Exception :=
  ⟨.error, "tail of empty list", []⟩

/-- A key without a value. -/
def unpairedKey : Exception :=
  ⟨.typeError, "map expects key/value pairs", []⟩

/-- A kind of exception that does not exist. -/
def unknownKind (name : String) : Exception :=
  ⟨.typeError, "unknown exception kind '" ++ name ++ "'", []⟩

/-- An operator that does not exist. -/
def unknownOperator (name : String) : Exception :=
  ⟨.typeError, "unknown operator '" ++ name ++ "'", []⟩

/-- Something raised that is neither an exception nor a text. -/
def cannotRaise (typeName : String) : Exception :=
  ⟨.typeError, "cannot raise " ++ typeName, []⟩

/-- An exception raised with a text. -/
def raised (message : String) : Exception :=
  ⟨.error, message, []⟩

/-- The exception raised again, with a new trace. -/
def raisedAgain (exception : Exception) : Exception :=
  ⟨exception.kind, exception.message, []⟩

end Exception

end EffectScript
