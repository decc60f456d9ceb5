import Ambient.Build.Run
import Ambient.Cli.Entry
import Ambient.Cli.Report
import Ambient.Cli.Words
import Ambient.Decl.Value
import Ambient.Json.Printer
import Ambient.Settings.Load
import Ambient.Text.Colour

/-!
# A run of the program

A request holds the words of the call, the variables of the environment and what paths lead to; the
response holds everything that the run leaves behind.  Faults in the words are found before the
settings are loaded when they concern the program, and after it when they concern a command.
-/

namespace Ambient.Cli

/-- What a run depends on. -/
structure Request where
  words : List String
  environment : Table String
  find : String → Entry

/-- Why a file cannot be written. -/
inductive WriteFault where
  | noDirectory
  | notDirectory
  | isDirectory
  deriving DecidableEq, Repr

namespace WriteFault

/-- The wording of a fault, with its number. -/
def message (path : String) : WriteFault → String
  | noDirectory => "[Errno 2] No such file or directory: " ++ Text.quoteEither path
  | notDirectory => "[Errno 20] Not a directory: " ++ Text.quoteEither path
  | isDirectory => "[Errno 21] Is a directory: " ++ Text.quoteEither path

end WriteFault

/-- What ends a run before its time, without a message of its own. -/
inductive Crash where
  | settings (fault : SettingsFault)
  | failure (failure : Failure)
  | unwritable (path : String) (fault : WriteFault)

/-- What a run leaves behind. -/
structure Response where
  exitCode : Nat := 0
  output : String := ""
  messages : String := ""
  /-- The file that is written, with its text. -/
  written : Option (String × String) := none
  /-- The least level of notices that is reported. -/
  level : Level := .warning
  crash : Option Crash := none

/-- The operands of a command. -/
structure Operands where
  source : String
  text : String
  target : Option String

/-- The source and its text. -/
def sourceOf (find : String → Entry) (path : String) : Except UsageFault String :=
  match find path with
  | .file text => .ok text
  | .directory => .error (.isDirectory "SOURCE" path)
  | _ => .error (.noSuchFile "SOURCE" path)

/-- The file to be written, and the operands behind it. -/
def targetOf (find : String → Entry) (c : Command) (rest : List String) :
    Except UsageFault (Option String × List String) :=
  match c, rest with
  | .generate, path :: rest =>
    if find path = .directory then .error (.isDirectory "[OUT_FILE]" path)
    else .ok (some path, rest)
  | _, rest => .ok (none, rest)

/-- Matches words with the operands of a command, from left to right. -/
def operandsOf (find : String → Entry) (c : Command) : List String → Except UsageFault Operands
  | [] => .error (.missingArgument "SOURCE")
  | path :: rest => do
    let text ← sourceOf find path
    let (target, extra) ← targetOf find c rest
    if extra.isEmpty then return { source := path, text, target }
    else throw (.extraArguments extra)

/-- Whether a file can be written. -/
def checkWritable : Entry → Except WriteFault Unit
  | .file _ | .vacant => .ok ()
  | .directory => .error .isDirectory
  | .unreachable => .error .noDirectory
  | .obstructed => .error .notDirectory

/-- What is done with the module of a source. -/
def deliver (find : String → Entry) (s : Settings) (c : Command) (target : Option String)
    (m : Module) (respond : Log → Response) : Response :=
  match c, target with
  | .inspect, _ => { respond [] with output := Text.plain (m.toValue.pretty ++ "\n") }
  | .generate, none => { respond [] with output := Text.plain (Render.file s.style m) }
  | .generate, some target =>
    let path := Path.normal target
    match checkWritable (find path) with
    | .ok () =>
      { respond [.fileWritten path] with
        written := some (path, Render.file { s.style with colors := false } m) }
    | .error f => { respond [] with exitCode := 1, crash := some (.unwritable path f) }

/-- Performs a command. -/
def perform (find : String → Entry) (s : Settings) (level : Level) (c : Command) (ops : Operands) :
    Response :=
  let path := Path.normal ops.source
  let name := s.nameFor (Path.stem path)
  let source := String.ofList (Text.unifyBreaks ops.text.toList)
  let outcome := Build.ofSource s.resolver name source
  let respond (more : Log) : Response :=
    let log := .sourceRead path name :: outcome.log ++ more
    { level, messages := Text.plain (Report.lines level log) }
  match outcome.result with
  | .ok m => deliver find s c ops.target m respond
  | .error f =>
    let r := respond []
    if f.isReported then
      { r with exitCode := 1, messages := r.messages ++ "Error: " ++ f.message ++ "\n" }
    else { r with exitCode := 1, crash := some (.failure f) }

/-- Runs a command with settings. -/
def runCommand (find : String → Entry) (s : Settings) (c : Command) (words : List String) :
    Response :=
  let level := if s.debug then Level.debug else Level.warning
  let refuse (f : UsageFault) : Response :=
    { level, exitCode := 2, messages := Usage.complaint (some c) f }
  match Words.read true words with
  | .error f => refuse f
  | .ok ws =>
    if ws.help then { level, output := Usage.help (some c) }
    else
      match operandsOf find c ws.operands with
      | .error f => refuse f
      | .ok ops => perform find s level c ops

/-- Runs the program. -/
def run (r : Request) : Response :=
  match Call.ofWords r.words with
  | .help true => { output := Usage.help none }
  | .help false => { exitCode := 2, messages := Usage.help none }
  | .faulty f => { exitCode := 2, messages := Usage.complaint none f }
  | .command c words =>
    match Settings.load { environment := r.environment } with
    | .error f => { exitCode := 1, crash := some (.settings f) }
    | .ok s => runCommand r.find s c words

end Ambient.Cli
