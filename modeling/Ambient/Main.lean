import Ambient.Cli.Run

/-!
# The program

Collects what a run depends on, runs it, and carries out its response.
-/

open Ambient

/-- What a path leads to on this machine. -/
def entryAt (path : String) : IO Entry := do
  try
    if ← (← IO.FS.realPath path).isDir then return .directory
    return .file (← IO.FS.readFile path)
  catch _ =>
    try
      let parent := (Path.parts path).dropLast
      let place := Path.root path ++ String.intercalate "/" parent
      let here ← IO.FS.realPath (if place.isEmpty then "." else place)
      return if ← here.isDir then .vacant else .obstructed
    catch _ => return .unreachable

/-- The variables of the environment that give settings. -/
def readEnvironment : IO (Table String) := do
  let found ← Settings.variableNames.mapM fun name => do
    return (← IO.getEnv name).map fun value => (name, value)
  return found.filterMap id

/-- The wording of what ended a run before its time. -/
def crashMessage : Cli.Crash → String
  | .settings (.unreadable field source) => SettingsFault.unreadableMessage field source
  | .settings (.invalid issues) =>
    String.intercalate "\n" (issues.map fun i => i.place ++ ": " ++ i.fault.code)
  | .failure f => f.message
  | .unwritable path f => f.message path

/-- Runs the program. -/
def main (words : List String) : IO UInt32 := do
  let paths := words ++ words.map Path.normal
  let entries ← paths.mapM fun path => do return (path, ← entryAt path)
  let response := Cli.run
    { words
      environment := ← readEnvironment
      find := fun path => (Table.get? entries path).getD .vacant }
  IO.print response.output
  IO.eprint response.messages
  match response.written with
  | some (path, text) => IO.FS.writeFile path text
  | none => pure ()
  match response.crash with
  | some crash => IO.eprintln (crashMessage crash)
  | none => pure ()
  return response.exitCode.toUInt32
