import EffectScript.Command.Execution

/-!
# The command line program

The host that is the operating system. Runs are unbounded and show their output
as it appears.
-/

namespace EffectScript

/-- How many steps are made between two looks at the output. -/
def stepsPerFlush : Nat := 10000

/-- Steps until the run ends or the count of steps is used up. -/
def stepMany : Nat → Machine → Step
  | 0, machine => .running machine
  | count + 1, machine =>
      match machine.step with
      | .running next => stepMany count next
      | ended => ended

/-- Shows the output collected so far and empties it. -/
def flushOutput (machine : Machine) : IO Machine := do
  let out ← IO.getStdout
  out.putStr machine.outlet.text
  out.flush
  return { machine with outlet := machine.outlet.emptied }

/-- Steps until the run ends. -/
partial def stepToEnd (machine : Machine) :
    IO (Except ScriptError Value × Machine) := do
  match stepMany stepsPerFlush machine with
  | .running next => stepToEnd (← flushOutput next)
  | .finished value final => return (.ok value, ← flushOutput final)
  | .failed failure final =>
      return (.error (.runtime failure), ← flushOutput final)

/-- Why the operating system refuses a file. -/
def fileError : IO.Error → FileError
  | .noFileOrDirectory .. => .missing
  | .inappropriateType _ 21 _ => .isDirectory
  | .inappropriateType .. => .notDirectory
  | .invalidArgument _ 36 _ => .nameTooLong
  | error => .other (toString error)

/-- The host that is the operating system. -/
def systemHost : Host IO :=
  { readText := fun path => do
      try
        match String.fromUTF8? (← IO.FS.readBinFile path) with
        | some text => return .ok text
        | none => return .error .notText
      catch error => return .error (fileError error)
    isFile := fun path => do
      try
        let _ ← IO.FS.readBinFile path
        return true
      catch _ => return false
    writeText := fun path text => do
      try
        IO.FS.writeFile path text
        return .ok ()
      catch error => return .error (fileError error)
    showOutput := fun text => do
      let out ← IO.getStdout
      out.putStr text
      out.flush
    showError := fun text => do
      let out ← IO.getStderr
      out.putStr text
      out.flush
    clock := IO.monoNanosNow
    runScript := fun machine script => do
      match machine.load script with
      | .running loaded => stepToEnd loaded
      | .finished value final => return (.ok value, final)
      | .failed failure final => return (.error (.runtime failure), final) }

end EffectScript

/-- Carries out the command line. -/
def main (arguments : List String) : IO UInt32 := do
  let code ← EffectScript.systemHost.executeArguments arguments
  return code.toUInt32
