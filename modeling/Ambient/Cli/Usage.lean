import Ambient.Text.Cut
import Ambient.Text.Likeness
import Ambient.Text.Quoted

/-!
# How the program is used

The commands, the texts that explain them, and what can be wrong with the words that the program
is called with.
-/

namespace Ambient

/-- What the program can be told to do. -/
inductive Command where
  /-- Write the declaration file of a source. -/
  | generate
  /-- Print the declarations of a source as data. -/
  | inspect
  deriving DecidableEq, Repr

namespace Command

/-- All commands. -/
def all : List Command :=
  [generate, inspect]

/-- The word for a command. -/
def name : Command → String
  | generate => "generate"
  | inspect => "inspect"

/-- The command that a word stands for. -/
def ofName? (word : String) : Option Command :=
  all.find? fun c => c.name = word

/-- The arguments of a command. -/
def arguments : Command → String
  | generate => "SOURCE [OUT_FILE]"
  | inspect => "SOURCE"

/-- What a command does. -/
def summary : Command → String
  | generate => "Write the declaration file of SOURCE to OUT_FILE, or print it."
  | inspect => "Print the validated declaration model of SOURCE as JSON."

end Command

/-- What is wrong with the words that the program is called with. -/
inductive UsageFault where
  | unknownOption (option : String)
  | valueGiven (option : String)
  | missingCommand
  | unknownCommand (word : String)
  | missingArgument (argument : String)
  | noSuchFile (argument path : String)
  | isDirectory (argument path : String)
  | extraArguments (words : List String)
  deriving DecidableEq, Repr

namespace UsageFault

/-- The option that a misspelt one may stand for. -/
def suggestion (option : String) : String :=
  if Text.startsWith "--" option && Text.isAlike "--help" option then " Did you mean --help?"
  else ""

/-- The wording of a fault. -/
def message : UsageFault → String
  | unknownOption option => "No such option: " ++ option ++ suggestion option
  | valueGiven option => "Option " ++ Text.quoteEither option ++ " does not take a value."
  | missingCommand => "Missing command."
  | unknownCommand word => "No such command " ++ Text.quoteEither word ++ "."
  | missingArgument argument => "Missing argument '" ++ argument ++ "'."
  | noSuchFile argument path =>
    "Invalid value for '" ++ argument ++ "': File " ++ Text.quoteEither path ++ " does not exist."
  | isDirectory argument path =>
    "Invalid value for '" ++ argument ++ "': File " ++ Text.quoteEither path ++ " is a directory."
  | extraArguments words =>
    (match words with
      | [_] => "Got unexpected extra argument ("
      | _ => "Got unexpected extra arguments (") ++ String.intercalate " " words ++ ")"

end UsageFault

namespace Usage

/-- The words that call a command, or the program itself. -/
def call : Option Command → String
  | none => "dtsgen"
  | some c => "dtsgen " ++ c.name

/-- What may follow these words. -/
def operands : Option Command → String
  | none => "[OPTIONS] COMMAND [ARGS]..."
  | some c => "[OPTIONS] " ++ c.arguments

/-- The line that shows how a command is called. -/
def line (c : Option Command) : String :=
  "Usage: " ++ call c ++ " " ++ operands c ++ "\n"

/-- The lines on the options, which all commands have. -/
def options : String :=
  "Options:\n  -h, --help  Show this message and exit.\n"

/-- The explanation of a command, or of the program. -/
def help : Option Command → String
  | some c => line (some c) ++ "\n  " ++ c.summary ++ "\n\n" ++ options
  | none =>
    line none ++
      "\n  Generate TypeScript declaration files from JSDoc-annotated JavaScript. Set\n" ++
      "  DTSGEN_DEBUG=1 for debug logging on stderr.\n\n" ++ options ++ "\nCommands:\n" ++
      String.join (Command.all.map fun c =>
        "  " ++ c.name ++ String.ofList (List.replicate (10 - c.name.length) ' ') ++ c.summary ++
          "\n")

/-- The complaint about a fault. -/
def complaint (c : Option Command) (f : UsageFault) : String :=
  line c ++ "Try '" ++ call c ++ " -h' for help.\n\nError: " ++ f.message ++ "\n"

end Usage

end Ambient
