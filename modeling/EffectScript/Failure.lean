import EffectScript.Exception
import EffectScript.Fault

/-!
# How a run can fail

A run ends in an exception of the language, in an effect that nobody handles, or
in a host fault. The first two carry a trace of the calls that were live, the
innermost one first.
-/

namespace EffectScript

/-- How a run can fail. -/
inductive Failure where
  | exception (exception : Exception)
  | unhandled (effect : String) (trace : List TraceEntry)
  | fault (fault : Fault)
deriving DecidableEq

namespace Failure

/-- The wording of a failure, without its trace. -/
def message : Failure → String
  | .exception raised => raised.text
  | .unhandled effect _ => "unhandled effect '" ++ effect ++ "'"
  | .fault cause => "host fault: " ++ cause.message

/-- The calls that were live, the innermost one first. -/
def trace : Failure → List TraceEntry
  | .exception raised => raised.trace
  | .unhandled _ trace => trace
  | .fault _ => []

/-- The failure with further calls at the end of its trace; a fault has no
trace. -/
def withCalls (failure : Failure) (calls : List TraceEntry) : Failure :=
  match failure with
  | .exception raised =>
      .exception { raised with trace := raised.trace ++ calls }
  | .unhandled effect trace => .unhandled effect (trace ++ calls)
  | .fault cause => .fault cause

/-- The wording of a failure and a line for every call of its trace. -/
def report (failure : Failure) : String :=
  failure.message ++
    String.join (failure.trace.map fun entry => "\n  at " ++ entry.text)

end Failure

end EffectScript
