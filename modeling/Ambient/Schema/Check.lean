import Ambient.Json.Basic
import Ambient.Text.Blank

/-!
# Checking values against a schema

A check turns a value of the data format into a domain value or names everything that is wrong
with it.  Checks are combined so that all issues of a value are found, not only the first:
`Check.both` runs two checks and keeps the issues of each.  An issue knows the path to the value it
is about; `Check.under` puts a step in front of the paths of a check.
-/

namespace Ambient.Schema

/-- What can be wrong with a value. -/
inductive Fault where
  | notText
  | notBool
  /-- A text or a number that stands for no truth value. -/
  | badBool
  | notInt
  /-- A text that denotes no integer. -/
  | badInt
  /-- A number between two integers. -/
  | fractional
  /-- A number that is not finite. -/
  | infinite
  | notList
  | notSet
  | notTable
  /-- No object where a group of fields is expected. -/
  | notRecord
  /-- A field that must be there is not. -/
  | missing
  /-- A field that must not be there is. -/
  | unknownField
  /-- A type without a name. -/
  | emptyName
  /-- A constructor that is declared as something else than a function. -/
  | notFunction
  /-- No object where a declaration is expected. -/
  | notDecl
  /-- A declaration that does not say its kind. -/
  | kindMissing
  /-- A declaration of a kind that does not exist. -/
  | kindUnknown
  /-- A value that nests more deeply than was allowed. -/
  | tooDeep
  deriving DecidableEq, Repr

namespace Fault

/-- The code under which a fault is reported. -/
def code : Fault → String
  | notText => "string_type"
  | badBool => "bool_parsing"
  | notBool => "bool_type"
  | fractional => "int_from_float"
  | infinite => "finite_number"
  | badInt => "int_parsing"
  | notInt => "int_type"
  | notList => "list_type"
  | notSet => "set_type"
  | missing => "missing"
  | emptyName => "value_error"
  | tooDeep => "recursion_loop"
  | notRecord => "model_type"
  | notFunction => "literal_error"
  | notTable => "dict_type"
  | notDecl => "model_attributes_type"
  | kindMissing => "union_tag_not_found"
  | kindUnknown => "union_tag_invalid"
  | unknownField => "extra_forbidden"

end Fault

/-- What is wrong with a value, and where. -/
structure Issue where
  path : List String
  fault : Fault
  deriving DecidableEq, Repr

/-- The path of an issue as one text. -/
def Issue.place (i : Issue) : String :=
  String.intercalate "." i.path

/-- A domain value, or the issues of the value it was to be read from. -/
abbrev Check (α : Type) := Except (List Issue) α

namespace Check

variable {α β γ : Type}

/-- The check that finds one issue. -/
def fail (fault : Fault) : Check α :=
  .error [⟨[], fault⟩]

/-- Puts a step in front of every path. -/
def under (step : String) : Check α → Check α
  | .ok a => .ok a
  | .error is => .error (is.map fun i => { i with path := step :: i.path })

/-- Runs two checks and keeps the issues of both. -/
def both (f : α → β → γ) : Check α → Check β → Check γ
  | .ok a, .ok b => .ok (f a b)
  | .ok _, .error js => .error js
  | .error is, .ok _ => .error is
  | .error is, .error js => .error (is ++ js)

/-- Applies a checked function to a checked argument; the issues of both are kept. -/
def ap (f : Check (α → β)) (a : Check α) : Check β :=
  both (fun f a => f a) f a

/-- Checks in order, with the issues of all. -/
def all : List (Check α) → Check (List α)
  | [] => .ok []
  | c :: cs => both List.cons c (all cs)

end Check

/-- The steps of a list's items. -/
def indexed {α : Type} (xs : List α) : List (String × α) :=
  xs.zipIdx.map fun p => (toString p.2, p.1)

/-- A text. -/
def text : Json → Check String
  | .str s => .ok s
  | _ => .fail .notText

/-- A text or nothing. -/
def optionalText : Json → Check (Option String)
  | .null => .ok none
  | .str s => .ok (some s)
  | _ => .fail .notText

/-- The words that are truth values, whatever their case. -/
def boolWord? (s : String) : Option Bool :=
  let word := s.toLower
  if ["1", "t", "true", "y", "yes", "on"].contains word then some true
  else if ["0", "f", "false", "n", "no", "off"].contains word then some false
  else none

/-- The integer that a decimal equals. -/
def wholeValue? (mantissa exponent : Int) : Option Int :=
  if 0 ≤ exponent then some (mantissa * Int.ofNat (Nat.pow 10 exponent.toNat))
  else
    let scale : Int := Int.ofNat (Nat.pow 10 (-exponent).toNat)
    if mantissa % scale = 0 then some (mantissa / scale) else none

/-- One and zero are truth values. -/
def boolOfInt (n : Int) : Check Bool :=
  if n = 1 then .ok true else if n = 0 then .ok false else .fail .badBool

/-- A truth value, or a text or number that stands for one. -/
def bool : Json → Check Bool
  | .bool b => .ok b
  | .str s =>
    match boolWord? s with
    | some b => .ok b
    | none => .fail .badBool
  | .int n => boolOfInt n
  | .decimal m e =>
    match wholeValue? m e with
    | some n => boolOfInt n
    | none => .fail .notBool
  | _ => .fail .notBool

/-- Digits, with single underscores between them. -/
def digitsWithGaps : List Char → Option (List Char)
  | [] => none
  | [c] => if c.isDigit then some [c] else none
  | c :: '_' :: cs => if c.isDigit then (digitsWithGaps cs).map (c :: ·) else none
  | c :: cs => if c.isDigit then (digitsWithGaps cs).map (c :: ·) else none

/-- A text without a fraction of zeros at its end. -/
def dropZeroFraction (cs : List Char) : List Char :=
  match cs.reverse.dropWhile (· == '0') with
  | '.' :: rest => if cs.getLast? = some '0' then rest.reverse else cs
  | _ => cs

/-- The integer that a text denotes: blanks around it, a sign and a fraction of zeros are
allowed. -/
def intOfText? (s : String) : Option Int :=
  let cs := Text.trimEnds Text.isBlank s.toList
  let (negative, cs) := match cs with
    | '-' :: rest => (true, rest)
    | '+' :: rest => (false, rest)
    | _ => (false, cs)
  (digitsWithGaps (dropZeroFraction cs)).map fun ds =>
    let n : Int := ds.foldl (fun n d => n * 10 + (d.toNat - 0x30)) 0
    if negative then -n else n

/-- An integer, or a text, decimal or truth value that stands for one. -/
def int : Json → Check Int
  | .int n => .ok n
  | .bool b => .ok (if b then 1 else 0)
  | .decimal m e =>
    match wholeValue? m e with
    | some n => .ok n
    | none => .fail .fractional
  | .nonFinite => .fail .infinite
  | .str s =>
    match intOfText? s with
    | some n => .ok n
    | none => .fail .badInt
  | _ => .fail .notInt

/-- The items of an array, each checked under its index. -/
def listOf {α : Type} (item : Json → Check α) : Json → Check (List α)
  | .arr xs => Check.all ((indexed xs).map fun p => (item p.2).under p.1)
  | _ => .fail .notList

/-- A set of texts, in the order in which they were given. -/
def textSet : Json → Check (List String)
  | .arr xs => Check.all ((indexed xs).map fun p => (text p.2).under p.1)
  | _ => .fail .notSet

/-- A field that must be there. -/
def required {α : Type} (fields : Table Json) (key : String) (check : Json → Check α) : Check α :=
  match fields.get? key with
  | some v => (check v).under key
  | none => .error [⟨[key], .missing⟩]

/-- A field with a default. -/
def withDefault {α : Type} (fields : Table Json) (key : String) (default : α)
    (check : Json → Check α) : Check α :=
  match fields.get? key with
  | some v => (check v).under key
  | none => .ok default

end Ambient.Schema
