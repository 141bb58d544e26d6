import EffectScript.Expression.Parser
import EffectScript.Listing
import EffectScript.Lowering
import EffectScript.Machine.Step
import EffectScript.Settings.Document
import EffectScript.Token.Lexer

/-!
# Scripts

From a source text to a finished run, with everything that can stop it on the
way.
-/

namespace EffectScript

/-- What can stop a script. -/
inductive ScriptError where
  | source (error : SourceError) (origin : String)
  | compile (error : CompileError)
  | runtime (failure : Failure)
  | file (path cause : String)
  | settings (error : SettingsError)
  /-- The run took more steps than it was given. -/
  | interrupted

namespace ScriptError

/-- The wording of an error. -/
def message : ScriptError → String
  | .source error origin => "parse error: " ++ error.message origin
  | .compile error => "compile error: " ++ error.message
  | .runtime failure => failure.message
  | .file path cause => "failed to read '" ++ path ++ "': " ++ cause
  | .settings error => "config error: " ++ error.message
  | .interrupted => "interrupted"

/-- The wording of an error, with the trace of a failed run. -/
def report : ScriptError → String
  | .runtime failure => failure.report
  | other => other.message

end ScriptError

/-- The program that a source text writes. -/
def parseSource (source : String) : Except SourceError Block := do
  let tokens ← Token.scan source
  Block.parse tokens

/-- The top-level function of a source text that came from the given file. -/
def compileSource (source file : String) : Except ScriptError Template :=
  match parseSource source with
  | .error error => .error (.source error file)
  | .ok program =>
      match program.compile with
      | .error error => .error (.compile error)
      | .ok template => .ok template

/-- A source text compiles if it is a program and the program compiles. -/
theorem compileSource_eq_ok {source file : String} {script : Template} :
    compileSource source file = .ok script ↔
      ∃ program, parseSource source = .ok program ∧
        program.compile = .ok script := by
  unfold compileSource
  split
  next fails => simp [fails]
  next => split <;> simp [*]

/-- Runs a function as a script for at most `bound` steps. -/
def Machine.runScript (bound : Nat) (machine : Machine) (script : Template) :
    Except ScriptError Value × Machine :=
  match machine.interpret bound script with
  | none => (.error .interrupted, machine.cleared)
  | some ⟨.ok value, final⟩ => (.ok value, final)
  | some ⟨.error failure, final⟩ => (.error (.runtime failure), final)

/-- Compiles a source text and runs it for at most `bound` steps. Globals of
earlier runs stay. -/
def Machine.runSource (bound : Nat) (machine : Machine) (source file : String) :
    Except ScriptError Value × Machine :=
  match compileSource source file with
  | .error error => (.error error, machine)
  | .ok script => machine.runScript bound script

end EffectScript
