import Ambient.Notice
import Ambient.Text.Cut
import Ambient.Text.Quoted

/-!
# Reported notices

A notice is reported as one line: its level, its event, and its details by name.  Only notices of
at least a given level are reported.
-/

namespace Ambient

namespace Report

/-- A text with blanks behind it up to a width. -/
def pad (width : Nat) (s : String) : String :=
  s ++ String.ofList (List.replicate (width - s.length) ' ')

/-- Characters that make a detail stand in quotes. -/
def needsQuotes (c : Char) : Bool :=
  c == ' ' || c == '\t' || c == '\r' || c == '\n' || c == '=' || c == '"' || c == '\x27'

/-- The text of a detail. -/
def detail : Json → String
  | .str s => if s.toList.any needsQuotes then Text.quoteEither s else s
  | .int n => toString n
  | _ => "None"

/-- The line of a notice. -/
def line (n : Notice) : String :=
  "[" ++ pad 9 n.level.name ++ "] " ++ pad 30 n.event ++
    String.join (n.fields.map fun f => " " ++ f.1 ++ "=" ++ detail f.2) ++ "\n"

/-- The lines of all notices of at least a level, in order. -/
def lines (least : Level) (log : Log) : String :=
  String.join ((log.filter fun n => least.rank ≤ n.level.rank).map line)

end Report

end Ambient
