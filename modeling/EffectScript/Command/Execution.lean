import EffectScript.Command
import EffectScript.FileTree
import EffectScript.Script

/-!
# Carrying out commands

Commands are carried out against a host, which reads and writes files, shows
text and runs the machine. A host can be the operating system or a tree of files
in memory.
-/

namespace EffectScript

/-- What carrying out a command needs from outside. -/
structure Host (m : Type → Type) where
  readText : String → m (Except FileError String)
  isFile : String → m Bool
  writeText : String → String → m (Except FileError Unit)
  /-- Shows text on the standard output. -/
  showOutput : String → m Unit
  /-- Shows text on the standard error. -/
  showError : String → m Unit
  /-- A clock in nanoseconds. -/
  clock : m Nat
  /-- Runs a function as a script. -/
  runScript : Machine → Template → m (Except ScriptError Value × Machine)

/-! ## Paths -/

/-- The parts of a path without those at its end that lead nowhere: empty ones
and dots. -/
def trimParts (parts : List String) : List String :=
  (parts.reverse.dropWhile fun part => part = "" || part = ".").reverse

/-- The path of the settings file next to a script. The way to the directory of
the script stays as it was written; a path that names nothing is taken to be the
working directory. -/
def settingsPathFor (script : String) : String :=
  match script.splitOn "/" with
  | [] => settingsFileName
  | first :: rest =>
      match trimParts rest with
      | [] => if first = "" then "./" ++ settingsFileName else settingsFileName
      | named => "/".intercalate
          (first :: (trimParts named.dropLast ++ [settingsFileName]))

/-! ## Settings and scripts in files -/

variable {m : Type → Type} [Monad m]

/-- Reads the settings in a file. -/
def Host.loadSettings (host : Host m) (path : String) :
    m (Except SettingsError Settings) := do
  match ← host.readText path with
  | .ok document => return Settings.ofDocument document path
  | .error error => return .error (.unreadable path error.message)

/-- Reads the settings next to a script, if there are any. -/
def Host.discoverSettings (host : Host m) (script : String) :
    m (Except SettingsError Settings) := do
  let path := settingsPathFor script
  if ← host.isFile path then host.loadSettings path
  else return .ok Settings.standard

/-- The listing of the script in a file. -/
def Host.disassembleFile (host : Host m) (path : String) :
    m (Except ScriptError String) := do
  match ← host.readText path with
  | .error error => return .error (.file path error.message)
  | .ok source =>
      match compileSource source path with
      | .error error => return .error error
      | .ok script => return .ok (script.listing {})

/-- Sends a listing where it is to go. -/
def Host.sendListing
    (host : Host m)
    (target : Option ListingTarget)
    (script : Template) :
    m (Except ScriptError Unit) := do
  match target with
  | none => return .ok ()
  | some .standardError =>
      host.showError (script.listing {})
      return .ok ()
  | some (.file path) =>
      match ← host.writeText path (script.listing {}) with
      | .ok () => return .ok ()
      | .error error => return .error (.file path error.message)

/-- Runs the script in a file, with a listing and a timing report where they are
wanted. -/
def Host.runFile
    (host : Host m) (path : String) (machine : Machine)
    (listing : Option ListingTarget)
    (timings : Option TimingsFormat) :
    m (Except ScriptError Value × Machine) := do
  match ← host.readText path with
  | .error error => return (.error (.file path error.message), machine)
  | .ok source =>
      let parseStart ← host.clock
      match parseSource source with
      | .error error => return (.error (.source error path), machine)
      | .ok program =>
          let compileStart ← host.clock
          match program.compile with
          | .error error => return (.error (.compile error), machine)
          | .ok script =>
              let compileEnd ← host.clock
              match ← host.sendListing listing script with
              | .error error => return (.error error, machine)
              | .ok () =>
                  let runStart ← host.clock
                  let ending ← host.runScript machine script
                  let runEnd ← host.clock
                  match timings with
                  | some format =>
                      let spent : Timings :=
                        ⟨compileStart - parseStart, compileEnd - compileStart,
                          runEnd - runStart⟩
                      host.showError (spent.report format ++ "\n")
                  | none => pure ()
                  return ending

/-! ## Commands -/

/-- Shows an error and gives the exit code that goes with it. -/
def Host.refuse (host : Host m) (error : ScriptError) : m Nat := do
  host.showError ("error: " ++ error.report ++ "\n")
  return 1

/-- Carries out a command; gives the exit code. -/
def Host.execute (host : Host m) (command : Command) : m Nat := do
  match command with
  | .help topic =>
      host.showOutput topic.text
      return 0
  | .disasm file =>
      match ← host.disassembleFile file with
      | .ok listing =>
          host.showOutput listing
          return 0
      | .error error => host.refuse error
  | .run file options =>
      let settings ←
        match options.settings with
        | some path => host.loadSettings path
        | none => host.discoverSettings file
      match settings with
      | .error error => host.refuse (.settings error)
      | .ok settings =>
          let machine := Machine.fresh settings.limits (.collecting "")
          let (result, final) ← host.runFile file machine options.listing
            options.timings
          host.showOutput final.outlet.text
          match result with
          | .ok _ => return 0
          | .error error => host.refuse error

/-- Carries out a command line; arguments that are refused give exit code
two. -/
def Host.executeArguments (host : Host m) (arguments : List String) :
    m Nat := do
  match Command.parse arguments with
  | .ok command => host.execute command
  | .error error =>
      host.showError ("error: " ++ error.message ++ "\n")
      return 2

/-! ## A host in memory -/

/-- Files in memory and the text shown so far. -/
structure World where
  tree : FileTree
  output : String := ""
  errorOutput : String := ""

/-- The host whose files are in memory; its runs take at most `bound` steps, and
its clock stands. -/
def World.host (bound : Nat) : Host (StateM World) :=
  { readText := fun path => do return (← get).tree.readText path
    isFile := fun path => do return (← get).tree.isFile path
    writeText := fun path text => do
      let world ← get
      match world.tree.writeText path text with
      | .ok tree =>
          set { world with tree := tree }
          return .ok ()
      | .error error => return .error error
    showOutput := fun text => modify fun world =>
      { world with output := world.output ++ text }
    showError := fun text =>
      modify fun world =>
        { world with errorOutput := world.errorOutput ++ text }
    clock := return 0
    runScript := fun machine script => return machine.runScript bound script }

end EffectScript
