import Ambient.Json.Basic
import Ambient.Text.Line
import Ambient.Text.Quoted

/-!
# Printing values

Two layouts: `compact`, on one line and in ASCII, and `pretty`, with two blanks for each level of
nesting and every character that the format allows left as it is.
-/

namespace Ambient.Json

open Ambient.Text

/-- A decimal as its digits and a power of ten. -/
def decimalText (mantissa exponent : Int) : String :=
  toString mantissa ++ "e" ++ toString exponent

mutual

/-- A value on one line, in ASCII. -/
def compact : Json → String
  | .null => "null"
  | .bool b => if b then "true" else "false"
  | .int n => toString n
  | .decimal m e => decimalText m e
  | .nonFinite => "NaN"
  | .str s => quoteAscii s
  | .arr xs => "[" ++ String.intercalate ", " (compactItems xs) ++ "]"
  | .obj fs => "\x7b" ++ String.intercalate ", " (compactFields fs) ++ "\x7d"

/-- The items of an array, each on its own. -/
def compactItems : List Json → List String
  | [] => []
  | x :: xs => compact x :: compactItems xs

/-- The fields of an object, each with its key. -/
def compactFields : List (String × Json) → List String
  | [] => []
  | (k, v) :: fs => (quoteAscii k ++ ": " ++ compact v) :: compactFields fs

end

/-- The blanks before a line at a level of nesting. -/
def margin (level : Nat) : String :=
  String.ofList (List.replicate (2 * level) ' ')

/-- Lines between two brackets, the closing one at the outer level. -/
def enclose (opening closing : String) (level : Nat) (body : List String) : String :=
  opening ++ "\n" ++ String.intercalate ",\n" (body.map (margin (level + 1) ++ ·)) ++ "\n" ++
    margin level ++ closing

mutual

/-- A value whose first line continues a line at the given level. -/
def prettyAt (level : Nat) : Json → String
  | .null => "null"
  | .bool b => if b then "true" else "false"
  | .int n => toString n
  | .decimal m e => decimalText m e
  | .nonFinite => "NaN"
  | .str s => quoteRaw s
  | .arr [] => "[]"
  | .arr (x :: xs) => enclose "[" "]" level (prettyItems (level + 1) (x :: xs))
  | .obj [] => "\x7b\x7d"
  | .obj (f :: fs) => enclose "\x7b" "\x7d" level (prettyFields (level + 1) (f :: fs))

/-- The items of an array, each at the given level. -/
def prettyItems (level : Nat) : List Json → List String
  | [] => []
  | x :: xs => prettyAt level x :: prettyItems level xs

/-- The fields of an object, each with its key at the given level. -/
def prettyFields (level : Nat) : List (String × Json) → List String
  | [] => []
  | (k, v) :: fs => (quoteRaw k ++ ": " ++ prettyAt level v) :: prettyFields level fs

end

/-- A value on several lines. -/
def pretty (v : Json) : String :=
  prettyAt 0 v

end Ambient.Json
