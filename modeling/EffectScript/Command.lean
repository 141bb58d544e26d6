import EffectScript.Timings

/-!
# Command lines

What the program can be asked to do, and how its arguments say so. Options may
stand before and after the file and none may come twice; behind `--` everything
is a file.
-/

namespace EffectScript

/-- Where a listing goes before a run. -/
inductive ListingTarget where
  | standardError
  | file (path : String)
deriving DecidableEq

/-- How a script is to be run. -/
structure RunOptions where
  listing : Option ListingTarget := none
  timings : Option TimingsFormat := none
  /-- The file with the settings. -/
  settings : Option String := none
  trace : Bool := false
deriving DecidableEq

/-- What help is asked about. -/
inductive HelpTopic where
  | program
  | run
  | disasm
  | help
deriving DecidableEq

/-- What the program is asked to do. -/
inductive Command where
  | run (file : String) (options : RunOptions)
  | disasm (file : String)
  | help (topic : HelpTopic)
deriving DecidableEq

/-- Why arguments are refused. -/
inductive UsageError where
  | missingCommand
  | unknownCommand (name : String)
  | missingFile
  | unexpectedArgument (argument : String)
  | repeatedOption (name : String)
  | missingValue (name : String)
  | invalidValue (value name : String)
deriving DecidableEq

/-- The wording of an error. -/
def UsageError.message : UsageError → String
  | .missingCommand => "a subcommand is required"
  | .unknownCommand name => "unrecognized subcommand '" ++ name ++ "'"
  | .missingFile =>
      "the following required arguments were not provided:\n  <FILE>"
  | .unexpectedArgument argument =>
      "unexpected argument '" ++ argument ++ "' found"
  | .repeatedOption name =>
      "the argument '" ++ name ++ "' cannot be used multiple times"
  | .missingValue name =>
      "a value is required for '" ++ name ++ "' but none was supplied"
  | .invalidValue value name =>
      "invalid value '" ++ value ++ "' for '" ++ name ++ "'"

namespace Command

/-- The arguments of a run read so far. -/
structure RunArguments where
  file : Option String := none
  options : RunOptions := {}

/-- Whether an argument is written like an option. -/
def looksLikeOption (argument : String) : Bool :=
  argument.startsWith "-" && argument ≠ "-"

/-- Takes in the file. -/
def RunArguments.addFile (given : RunArguments) (file : String) :
    Except UsageError RunArguments :=
  if given.file.isSome then .error (.unexpectedArgument file)
  else if file = "" then .error (.missingValue "<FILE>")
  else .ok { given with file := some file }

/-- Takes in where the listing goes. -/
def RunArguments.addListing (given : RunArguments) (target : ListingTarget) :
    Except UsageError RunArguments :=
  if given.options.listing.isSome then
    .error (.repeatedOption "--dump-bytecode")
  else if target = .file "" then
    .error (.missingValue "--dump-bytecode[=<FILE>]")
  else .ok { given with options.listing := some target }

/-- Takes in the form of the timing report. -/
def RunArguments.addTimings (given : RunArguments) (format : TimingsFormat) :
    Except UsageError RunArguments :=
  if given.options.timings.isSome then .error (.repeatedOption "--timings")
  else .ok { given with options.timings := some format }

/-- Takes in the file with the settings. -/
def RunArguments.addSettings (given : RunArguments) (path : String) :
    Except UsageError RunArguments :=
  if given.options.settings.isSome then .error (.repeatedOption "--config")
  else if path = "" then .error (.missingValue "--config <FILE>")
  else .ok { given with options.settings := some path }

/-- Takes in the wish to log events. -/
def RunArguments.addTrace (given : RunArguments) :
    Except UsageError RunArguments :=
  if given.options.trace then .error (.repeatedOption "--trace")
  else .ok { given with options.trace := true }

/-- The form of the timing report with the given name. -/
def timingsFormat (name : String) : Except UsageError TimingsFormat :=
  if name = "human" then .ok .human
  else if name = "json" then .ok .json
  else .error (.invalidValue name "--timings[=<TIMINGS>]")

/-- The text behind an option and an equals sign. -/
def valueOf? (option argument : String) : Option String :=
  if argument.startsWith (option ++ "=") then
    some (String.ofList (argument.toList.drop (option.length + 1)))
  else none

/-- Takes in one option that needs no further argument. -/
def RunArguments.addOption (given : RunArguments) (argument : String) :
    Except UsageError RunArguments :=
  if argument = "--trace" then given.addTrace
  else if argument = "--dump-bytecode" then given.addListing .standardError
  else if argument = "--timings" then given.addTimings .human
  else
    match valueOf? "--dump-bytecode" argument, valueOf? "--timings" argument,
        valueOf? "--config" argument with
    | some path, _, _ => given.addListing (.file path)
    | _, some name, _ => do given.addTimings (← timingsFormat name)
    | _, _, some path => given.addSettings path
    | none, none, none => .error (.unexpectedArgument argument)

/-- Whether an argument asks for help. Behind the short form more letters may
follow. -/
def asksForHelp (argument : String) : Bool :=
  argument.startsWith "-h" || argument = "--help"

/-- Reads the arguments of a run. -/
def parseRun (filesOnly : Bool) (given : RunArguments) :
    List String → Except UsageError Command
  | [] =>
      match given.file with
      | some file => .ok (.run file given.options)
      | none => .error .missingFile
  | argument :: rest =>
      if filesOnly || !looksLikeOption argument then do
        parseRun filesOnly (← given.addFile argument) rest
      else if argument = "--" then parseRun true given rest
      else if asksForHelp argument then .ok (.help .run)
      else if argument = "--config" then
        match rest with
        | path :: others =>
            if looksLikeOption path then
              .error (.missingValue "--config <FILE>")
            else do parseRun false (← given.addSettings path) others
        | [] => .error (.missingValue "--config <FILE>")
      else do
        parseRun false (← given.addOption argument) rest

/-- Reads the arguments of a disassembly. -/
def parseDisasm (filesOnly : Bool) (given : RunArguments) :
    List String → Except UsageError Command
  | [] =>
      match given.file with
      | some file => .ok (.disasm file)
      | none => .error .missingFile
  | argument :: rest =>
      if filesOnly || !looksLikeOption argument then do
        parseDisasm filesOnly (← given.addFile argument) rest
      else if argument = "--" then parseDisasm true given rest
      else if asksForHelp argument then .ok (.help .disasm)
      else .error (.unexpectedArgument argument)

/-- Reads what help is asked about. -/
def parseHelp : List String → Except UsageError Command
  | [] => .ok (.help .program)
  | ["run"] => .ok (.help .run)
  | ["disasm"] => .ok (.help .disasm)
  | ["help"] => .ok (.help .help)
  | name :: _ => .error (.unknownCommand name)

/-- Reads a command line. -/
def parse : List String → Except UsageError Command
  | [] => .error .missingCommand
  | "run" :: rest => parseRun false {} rest
  | "disasm" :: rest => parseDisasm false {} rest
  | "help" :: rest => parseHelp rest
  | argument :: _ =>
      if asksForHelp argument then .ok (.help .program)
      else if looksLikeOption argument then
        .error (.unexpectedArgument argument)
      else .error (.unknownCommand argument)

end Command

/-- The help on a topic. -/
def HelpTopic.text : HelpTopic → String
  | .program =>
      "A small dynamic language with algebraic effects\n\n" ++
      "Usage: sable <COMMAND>\n\n" ++
      "Commands:\n" ++
      "  run     Run a sable source file\n" ++
      "  disasm  Print the bytecode of a sable source file without " ++
      "running it\n" ++
      "  help    Print this message or the help of the given " ++
      "subcommand(s)\n\n" ++
      "Options:\n" ++
      "  -h, --help  Print help\n"
  | .run =>
      "Run a sable source file\n\n" ++
      "Usage: sable run [OPTIONS] <FILE>\n\n" ++
      "Arguments:\n" ++
      "  <FILE>  The source file to run\n\n" ++
      "Options:\n" ++
      "      --dump-bytecode[=<FILE>]  Dump bytecode to stderr, or to a " ++
      "file with --dump-bytecode=path\n" ++
      "      --timings[=<TIMINGS>]     Print phase timings (human or json " ++
      "format) [possible values: human, json]\n" ++
      "      --config <FILE>           Runtime config file (defaults to " ++
      "sable.toml next to the script)\n" ++
      "      --trace                   Log compiler and VM events to " ++
      "stderr\n" ++
      "  -h, --help                    Print help\n"
  | .disasm =>
      "Print the bytecode of a sable source file without running it\n\n" ++
      "Usage: sable disasm <FILE>\n\n" ++
      "Arguments:\n" ++
      "  <FILE>  The source file to disassemble\n\n" ++
      "Options:\n" ++
      "  -h, --help  Print help\n"
  | .help =>
      "Print this message or the help of the given subcommand(s)\n\n" ++
      "Usage: sable help [COMMAND]...\n\n" ++
      "Arguments:\n" ++
      "  [COMMAND]...  Print help for the subcommand(s)\n"

end EffectScript
