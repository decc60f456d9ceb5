import Ambient.Decl.Basic
import Ambient.Text.Blank
import Ambient.Text.Line

/-!
# Style of a declaration file

Colours, indentation and the choice whether diagnostics are shown; and the two kinds of lines that
depend on nothing else, documentation blocks and warnings.
-/

namespace Ambient

/-- How a declaration file is laid out. -/
structure Style where
  colors : Bool := false
  warnings : Bool := true
  indent : Int := 4
  deriving DecidableEq, Repr

namespace Style

/-- A text between a colour sequence and a reset, when colours are on. -/
def paint (st : Style) (code text : String) : String :=
  if st.colors then "\x1b[" ++ code ++ "m" ++ text ++ "\x1b[0m" else text

/-- Declared names are magenta. -/
def ident (st : Style) (text : String) : String :=
  st.paint "35" text

/-- Documentation is green. -/
def comment (st : Style) (text : String) : String :=
  st.paint "32" text

/-- Diagnostics are red. -/
def warning (st : Style) (text : String) : String :=
  st.paint "31" text

/-- The blanks before a line at a level of nesting. -/
def margin (st : Style) (level : Nat) : String :=
  String.ofList (List.replicate (st.indent * level).toNat ' ')

/-- The text of a documentation block: the description, then the described parameters. -/
def docText (description : String) (params : List Parameter) : List String :=
  let body := Text.lines description
  let tagged := params.filterMap fun p =>
    (p.description.bind Text.nonEmpty?).map fun d => "@param " ++ p.name ++ " " ++ d
  if tagged.isEmpty || body.isEmpty then body ++ tagged else body ++ "" :: tagged

/-- A documentation block; nothing when there is nothing to say. -/
def docBlock (st : Style) (ind description : String) (params : List Parameter) : List String :=
  let body := docText description params
  if body.isEmpty then []
  else
    ((ind ++ "/**") :: body.map (fun l => Text.trimRight (ind ++ " * " ++ l)) ++
      [ind ++ " */"]).map st.comment

/-- One line for each diagnostic. -/
def warningLines (st : Style) (ind : String) (h : Header) : List String :=
  if st.warnings then h.diagnostics.map fun m => st.warning (ind ++ "// WARN: " ++ m) else []

end Style

end Ambient
