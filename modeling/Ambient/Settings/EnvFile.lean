import Ambient.Table
import Ambient.Text.Blank
import Ambient.Text.Cut
import Ambient.Text.Line

/-!
# Files of variables

A file of variables has one binding a line: `NAME=value`, with `export` before it or not.  A value
may stand in quotes, where escapes are read and lines may end; without quotes it ends at the end of
its line or at a comment.  A name without an equals sign is given no value.  `${NAME}` and
`${NAME:-default}` in a value stand for other variables.
-/

namespace Ambient.EnvFile

open Ambient.Text

/-- White space inside a line. -/
def isInlineBlank (c : Char) : Bool :=
  isBlank c && c != '\n' && c != '\r'

/-- A character that ends a line of the file. -/
def isLineBreak (c : Char) : Bool :=
  c == '\n' || c == '\r'

/-- What an escape in double quotes stands for. -/
def doubleEscape? (c : Char) : Option Char :=
  match c with
  | '\\' => some '\\'
  | '\x27' => some '\x27'
  | '"' => some '"'
  | 'a' => some '\x07'
  | 'b' => some '\x08'
  | 'f' => some '\x0c'
  | 'n' => some '\n'
  | 'r' => some '\r'
  | 't' => some '\t'
  | 'v' => some '\x0b'
  | _ => none

/-- What an escape in single quotes stands for. -/
def singleEscape? (c : Char) : Option Char :=
  if c == '\\' || c == '\x27' then some c else none

/-- The inside of a quoted value, as written, and the text after its closing quote.  A quote behind
a backslash closes the value only when no other quote does. -/
def untilQuote (quote : Char) : List Char → Option (List Char × List Char)
  | [] => none
  | '\\' :: c :: cs =>
    if c == quote then
      match untilQuote quote cs with
      | some r => some ('\\' :: c :: r.1, r.2)
      | none => some (['\\'], cs)
    else (untilQuote quote (c :: cs)).map fun r => ('\\' :: r.1, r.2)
  | c :: cs =>
    if c == quote then some ([], cs) else (untilQuote quote cs).map fun r => (c :: r.1, r.2)

/-- A text with its escapes read; what is no escape stays. -/
def unescape (escape? : Char → Option Char) : List Char → List Char
  | [] => []
  | '\\' :: c :: cs =>
    match escape? c with
    | some d => d :: unescape escape? cs
    | none => '\\' :: unescape escape? (c :: cs)
  | c :: cs => c :: unescape escape? cs

/-- A value without quotes up to a comment: blanks and a number sign. -/
def untilComment : List Char → List Char
  | [] => []
  | c :: cs =>
    if isBlank c && (cs.dropWhile isBlank).head? == some '#' then [] else c :: untilComment cs

/-- What is read at the front of a text with the text after it, or the text where reading
stopped. -/
abbrev Reading (α : Type) := Except (List Char) (α × List Char)

/-- The value behind an equals sign. -/
def readValue (cs : List Char) : Reading String :=
  let quoted (quote : Char) (escape? : Char → Option Char) (inside : List Char) : Reading String :=
    match untilQuote quote inside with
    | some r => .ok (String.ofList (unescape escape? r.1), r.2)
    | none => .error cs
  match cs with
  | '"' :: inside => quoted '"' doubleEscape? inside
  | '\x27' :: inside => quoted '\x27' singleEscape? inside
  | _ =>
    let line := cs.takeWhile (!isLineBreak ·)
    .ok (String.ofList (trimBack isBlank (untilComment line)), cs.drop line.length)

/-- The name of a binding. -/
def readKey (cs : List Char) : Reading String :=
  match cs with
  | '\x27' :: inside =>
    match cutFirst? (· == '\x27') inside with
    | some (key, rest) => if key.isEmpty then .error cs else .ok (String.ofList key, rest)
    | none => .error cs
  | _ =>
    let key := cs.takeWhile fun c => !(c == '=' || c == '#' || isBlank c)
    if key.isEmpty then .error cs else .ok (String.ofList key, cs.drop key.length)

/-- The text behind the word `export` and blanks. -/
def dropExport (cs : List Char) : List Char :=
  match after? "export".toList cs with
  | some (c :: rest) => if isInlineBlank c then rest.dropWhile isInlineBlank else cs
  | _ => cs

/-- The end of a binding: blanks, a comment, and the end of the line. -/
def readLineEnd (cs : List Char) : Reading Unit :=
  let behind := match cs.dropWhile isInlineBlank with
    | '#' :: rest => rest.dropWhile (!isLineBreak ·)
    | rest => rest
  match behind with
  | [] => .ok ((), [])
  | '\r' :: '\n' :: rest => .ok ((), rest)
  | c :: rest => if isLineBreak c then .ok ((), rest) else .error cs

/-- A name with its value, or without one.  A comment line binds nothing. -/
def readBinding (cs : List Char) :
    Except (List Char) (Option (String × Option String) × List Char) :=
  match dropExport cs with
  | '#' :: rest => (readLineEnd ('#' :: rest)).map fun r => (none, r.2)
  | cs => do
    let (key, rest) ← readKey cs
    match rest.dropWhile isInlineBlank with
    | '=' :: rest => do
      let (value, rest) ← readValue (rest.dropWhile isInlineBlank)
      let (_, rest) ← readLineEnd rest
      return (some (key, some value), rest)
    | rest => do
      let (_, rest) ← readLineEnd rest
      return (some (key, none), rest)

/-- The bindings of a file.  Where one cannot be read, the rest of the line is skipped. -/
def readBindings : (limit : Nat) → List Char → List (String × Option String)
  | 0, _ => []
  | n + 1, cs =>
    match cs.dropWhile isBlank with
    | [] => []
    | cs =>
      match readBinding cs with
      | .ok (b, rest) => b.toList ++ readBindings n rest
      | .error stop => readBindings n ((stop.dropWhile (!isLineBreak ·)).drop 1)

/-- The name and the default between the braces of a reference. -/
def readReference (cs : List Char) : Option ((String × String) × List Char) := do
  let (inner, rest) ← cutFirst? (· == '}') cs
  let name := inner.takeWhile (· != ':')
  match inner.drop name.length with
  | [] => return ((String.ofList name, ""), rest)
  | ':' :: '-' :: default => return ((String.ofList name, String.ofList default), rest)
  | _ => none

/-- A value with its references replaced. -/
def substitute (lookup : String → Option String) : (limit : Nat) → List Char → List Char
  | 0, _ => []
  | _, [] => []
  | n + 1, c :: cs =>
    match c, cs with
    | '$', '{' :: inside =>
      match readReference inside with
      | some ((name, default), rest) =>
        ((lookup name).getD default).toList ++ substitute lookup n rest
      | none => c :: substitute lookup n cs
    | _, _ => c :: substitute lookup n cs

/-- The bindings with references replaced: earlier bindings count before the surroundings. -/
def resolve (outer : Table String) : (done : Table (Option String)) →
    List (String × Option String) → Table (Option String)
  | done, [] => done
  | done, (key, none) :: rest => resolve outer (done.set key none) rest
  | done, (key, some value) :: rest =>
    let lookup (name : String) : Option String :=
      match done.get? name with
      | some v => some (v.getD "")
      | none => outer.get? name
    let value := String.ofList (substitute lookup (value.length + 1) value.toList)
    resolve outer (done.set key (some value)) rest

/-- The names of a file with their values; a bare name has none. -/
def read (outer : Table String) (text : String) : Table (Option String) :=
  let cs := unifyBreaks text.toList
  resolve outer [] (readBindings (cs.length + 1) cs)

end Ambient.EnvFile
