import Ambient.Text.Blank
import Ambient.Text.Cut
import Ambient.Text.Word
import Ambient.TypeExpr.Reader

/-!
# Tags of a documentation comment

A tag is `@title` and what follows it.  Some titles take a type in braces, some a name after it,
some a name only; what is left is the tag's description.  Brackets are matched by counting, with
one scanner for both kinds of bracket.
-/

namespace Ambient.Doc

open Ambient.Text

/-- A tag and what was read from it. -/
structure Tag where
  title : String
  name : Option String := none
  description : Option String := none
  type : Option TypeExpr := none
  rawType : Option String := none
  optional : Bool := false
  default : Option String := none

/-- Other spellings of a title. -/
def canonicalTitle (title : String) : String :=
  match title with
  | "returns" => "return"
  | "arg" => "param"
  | "argument" => "param"
  | "prop" => "property"
  | "constructor" => "class"
  | "extends" => "augments"
  | "desc" => "description"
  | "func" => "function"
  | "method" => "function"
  | _ => title

/-- Titles that may carry a type in braces. -/
def isTyped (title : String) : Bool :=
  ["param", "property", "return", "type", "typedef", "throws", "enum"].contains title

/-- Titles with a name after the type. -/
def isNamed (title : String) : Bool :=
  ["param", "property", "typedef"].contains title

/-- Titles whose first word is a name. -/
def isNameOnly (title : String) : Bool :=
  ["class", "function", "external", "module", "alias", "memberof", "augments", "lends",
   "namespace", "callback"].contains title

/-- The text up to the bracket that closes `depth` brackets and the one before the text, and the
text after it. -/
def untilClose (opening closing : Char) : Nat → List Char → Option (List Char × List Char)
  | _, [] => none
  | depth, c :: cs =>
    if c = opening then
      (untilClose opening closing (depth + 1) cs).map fun r => (c :: r.1, r.2)
    else if c = closing then
      match depth with
      | 0 => some ([], cs)
      | d + 1 => (untilClose opening closing d cs).map fun r => (c :: r.1, r.2)
    else (untilClose opening closing depth cs).map fun r => (c :: r.1, r.2)

/-- The inside of the braces whose opening one is already read; all of the text when they are not
closed. -/
def readBraced (cs : List Char) : List Char × List Char :=
  (untilClose '{' '}' 0 cs).getD (cs, [])

/-- A name that was read, whether it is optional, its default, and the text after it. -/
structure NameReading where
  name : Option String := none
  optional : Bool := false
  default : Option String := none
  rest : List Char

/-- Name and default between the brackets of an optional name. -/
def readOptional (inner rest : List Char) : NameReading :=
  let trimmed (cs : List Char) : String := String.ofList (trimEnds isBlank cs)
  match cutFirst? (· == '=') inner with
  | some (name, default) =>
    { name := nonEmpty? (trimmed name), optional := true, default := some (trimmed default), rest }
  | none => { name := nonEmpty? (trimmed inner), optional := true, rest }

/-- A name up to the next blank. -/
def readWord (cs : List Char) : NameReading :=
  { name := nonEmpty? (String.ofList (cs.takeWhile (!isBlank ·)))
    rest := cs.dropWhile (!isBlank ·) }

/-- The name at the front of a text: `n`, `[n]` or `[n=default]`. -/
def readName (cs : List Char) : NameReading :=
  let cs := trimFront isBlank cs
  match cs with
  | '[' :: inside =>
    match untilClose '[' ']' 0 inside with
    | some (inner, rest) => readOptional inner rest
    | none => readWord cs
  | _ => readWord cs

/-- The first word as a name; a line feed ends it too, and what follows the line feed stays. -/
def readNameOnly (cs : List Char) : NameReading :=
  let (first, rest) := (cutFirst? (· == ' ') (trimEnds isBlank cs)).getD (trimEnds isBlank cs, [])
  let (name, tail) := (cutFirst? (· == '\n') first).getD (first, [])
  { name := nonEmpty? (String.ofList name)
    rest := if tail.isEmpty then rest else tail ++ '\n' :: rest }

/-- The description of a tag: the rest of its text without blanks and a leading dash. -/
def readDescription (cs : List Char) : Option String :=
  match trimEnds isBlank cs with
  | '-' :: desc => nonEmpty? (String.ofList (trimEnds isBlank desc))
  | desc => nonEmpty? (String.ofList desc)

/-- Title of a tag and the text after it, a mark and blanks skipped. -/
def readTitle : List Char → Option (String × List Char)
  | '@' :: cs =>
    match cs.takeWhile isWord with
    | [] => none
    | title =>
      let rest := cs.dropWhile isWord
      let rest := (after? ['!'] rest).getD rest
      some (String.ofList title, rest.dropWhile fun c => c == ' ' || c == '\t')
  | _ => none

/-- The type of a tag that takes one, and the text after it. -/
def readType (title : String) (cs : List Char) : Option String × List Char :=
  match isTyped title, trimFront isBlank cs with
  | true, '{' :: inside =>
    let (type, rest) := readBraced inside
    (some (String.ofList type), rest)
  | _, _ => (none, cs)

/-- Name of a tag, as its title says. -/
def readNameOf (title : String) (cs : List Char) : NameReading :=
  if isNamed title then readName cs
  else if isNameOnly title then readNameOnly cs
  else { rest := cs }

namespace Tag

/-- The tag that a chunk of a comment holds, none when the chunk begins with no tag. -/
def read? (chunk : List Char) : Option Tag :=
  (readTitle chunk).map fun (word, rest) =>
    let title := canonicalTitle word
    let (rawType, rest) := readType title rest
    let name := readNameOf title rest
    { title
      name := name.name
      description := readDescription name.rest
      type := rawType.bind TypeExpr.parse?
      rawType
      optional := name.optional
      default := name.default }

end Tag

end Ambient.Doc
