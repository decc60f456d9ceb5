import Ambient.Source.Token

/-!
# Operators

The operator at the front of a text is the longest one that is written there.  Binary operators
have a precedence; a higher one binds tighter.
-/

namespace Ambient.Source

open Text

/-- All operators that may follow an operand, longer ones first. -/
def operators : List String :=
  [">>>=", "...", "===", "!==", "**=", "<<=", ">>=", "&&=", "||=", "??=", ">>>", "=>", "==", "!=",
   "<=", ">=", "&&", "||", "??", "**", "<<", ">>", "++", "--", "+=", "-=", "*=", "/=", "%=", "&=",
   "|=", "^=", "+", "-", "*", "/", "%", "<", ">", "&", "|", "^", "="]

/-- The operator at the front of a text. -/
def operatorAt (cs : List Char) : Option String :=
  operators.find? fun op => (after? op.toList cs).isSome

/-- The precedence of a binary operator. -/
def precedence? (op : String) : Option Nat :=
  match op with
  | "??" => some 1
  | "||" => some 2
  | "&&" => some 3
  | "|" => some 4
  | "^" => some 5
  | "&" => some 6
  | "==" | "!=" | "===" | "!==" => some 7
  | "<" | "<=" | ">" | ">=" | "in" | "instanceof" => some 8
  | "<<" | ">>" | ">>>" => some 9
  | "+" | "-" => some 10
  | "*" | "/" | "%" => some 11
  | "**" => some 12
  | _ => none

/-- The precedence that the right operand must have at least: only powers group to the right. -/
def rightPrecedence (op : String) (p : Nat) : Nat :=
  if op = "**" then p else p + 1

/-- The binary operator at the front of a text: a word or a sign. -/
def binaryAt (cs : List Char) : Option (String × Nat) :=
  let text := match wordAt cs with
    | "" => operatorAt cs
    | w => some w
  text.bind fun op => (precedence? op).map fun p => (op, p)

/-- The operators that combine a value with an assignment. -/
def isUpdate (op : String) : Bool :=
  [">>>=", "<<=", ">>=", "**=", "&&=", "||=", "??=", "+=", "-=", "*=", "/=", "%=", "&=", "^=",
   "|="].contains op

/-- The operators before an operand. -/
def unaryAt (cs : List Char) : Option String :=
  match wordAt cs with
  | "" =>
    match operatorAt cs with
    | some "+" => some "+"
    | some "-" => some "-"
    | some _ => none
    | none =>
      match cs with
      | '!' :: _ => some "!"
      | '~' :: _ => some "~"
      | _ => none
  | w => if ["typeof", "void", "delete"].contains w then some w else none

end Ambient.Source
