import Ambient.Render.Style
import Ambient.Text.Cut
import Ambient.Text.Digit
import Ambient.Text.Quoted
import Ambient.Text.Word

/-!
# Names, types and parameters in a declaration file
-/

namespace Ambient.Render

open Ambient.Text

/-- The text is an identifier; one line feed at its end is overlooked. -/
def isIdentifier (s : String) : Bool :=
  match (before? "\n" s).getD s |>.toList with
  | [] => false
  | c :: cs => isNameHead c && cs.all isNameTail

/-- A member name: an identifier or a number as it is, anything else quoted. -/
def memberName (name : String) : String :=
  if isIdentifier name || isDigits name then name else quoteAscii name

/-- The identifiers in a text, joined by dots. -/
def qualified (s : String) : String :=
  String.intercalate "."
    (((piecesOf (fun c => !isNameTail c) s.toList).filter (!·.isEmpty)).map String.ofList)

/-- A type of another module: `path.Member` is that member, a bare path the module itself. -/
def moduleType (name : String) : String :=
  match splitLast? '.' name with
  | some (path, member) =>
    if hasChar '/' member then "typeof import(" ++ quoteAscii name ++ ")"
    else "import(" ++ quoteAscii path ++ ")." ++ qualified member
  | none => "typeof import(" ++ quoteAscii name ++ ")"

/-- A name in its namespace.  `external` only says that the type is defined elsewhere. -/
def scopedName (scope : Option String) (name : String) : String :=
  match scope with
  | none => name
  | some s =>
    if s = "module" then moduleType name
    else if s.isEmpty || s = "external" then name
    else qualified (s ++ "." ++ name)

mutual

/-- A type with its arguments. -/
def type : TypeRef → String
  | ⟨scope, name, []⟩ => scopedName scope name
  | ⟨scope, name, a :: as⟩ =>
    scopedName scope name ++ "<" ++ String.intercalate ", " (typeList (a :: as)) ++ ">"

/-- Types one by one. -/
def typeList : List TypeRef → List String
  | [] => []
  | t :: ts => type t :: typeList ts

end

/-- Alternatives; `empty` stands for none. -/
def types (ts : List TypeRef) (empty : String) : String :=
  if ts.isEmpty then empty else String.intercalate " | " (typeList ts)

/-- A parameter; the alternatives of a rest parameter stand in parentheses. -/
def param (p : Parameter) : String :=
  let ts := types p.types "any"
  if p.rest then
    "..." ++ p.name ++ ": " ++ (if 1 < p.types.length then "(" ++ ts ++ ")" else ts) ++ "[]"
  else p.name ++ (if p.optional then "?" else "") ++ ": " ++ ts

/-- The parameters of a function. -/
def signature (fn : Callable) : String :=
  String.intercalate ", " (fn.params.map param)

end Ambient.Render
