import Ambient.Text.Quoted
import Ambient.TypeRef

/-!
# Failures

The reasons for which a source yields no module.  A failure is a cause; its wording is one
function of it.
-/

namespace Ambient

/-- Why a source yields no declarations. -/
inductive Failure where
  /-- A construct that nothing handles, the constructs it stands in, and its line. -/
  | unhandled (kind : String) (trail : List String) (line : Option Int)
  /-- A documented type without a counterpart. -/
  | type (fault : TypeRef.Fault)
  /-- A text that is no program. -/
  | malformed
  /-- A text that is no program, with the line and an excerpt. -/
  | malformedAt (line : Int) (excerpt : String)
  /-- A default export of a declaration that declares nothing. -/
  | nothingDeclared
  deriving DecidableEq, Repr

namespace Failure

/-- Where a construct stands, as messages put it. -/
def place : Option Int → String
  | some line => " at line " ++ toString line
  | none => ""

/-- The kinds passed on the way to a construct, outermost first. -/
def showTrail (trail : List String) : String :=
  String.intercalate " -> " trail

/-- The wording of a failure. -/
def message : Failure → String
  | unhandled kind trail line =>
    "Unexpected node type: " ++ kind ++ place line ++ ". Actual path is: " ++ showTrail trail
  | type (.unsupported kind) => "Unsupported type expression: " ++ kind
  | type .emptyName => "type name must not be empty"
  | malformed => "Source could not be parsed"
  | malformedAt line excerpt =>
    "Source could not be parsed near line " ++ toString line ++ ": " ++ Text.quoteEither excerpt
  | nothingDeclared => "list index out of range"

/-- The failures that are told to whoever runs the program. -/
def isReported : Failure → Bool
  | type .emptyName | nothingDeclared => false
  | _ => true

end Failure

end Ambient
