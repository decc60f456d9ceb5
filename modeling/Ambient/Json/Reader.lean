import Ambient.Json.Basic

/-!
# Reading values

A recursive reader over the characters of a text.  Each value, array tail or object tail consumes
at least one character before it asks for another, so the length of the text bounds the depth of
the recursion and serves as its fuel; `Json.parse?` hides it.
-/

namespace Ambient.Json

/-- White space between the tokens of a value. -/
def isGap (c : Char) : Bool :=
  c == ' ' || c == '\t' || c == '\n' || c == '\r'

/-- The text from its first token on. -/
def skipGap (cs : List Char) : List Char :=
  cs.dropWhile isGap

/-- The value of a hexadecimal digit. -/
def hexValue? (c : Char) : Option Nat :=
  if c.isDigit then some (c.toNat - 0x30)
  else if 'a' ≤ c && c ≤ 'f' then some (c.toNat - 0x57)
  else if 'A' ≤ c && c ≤ 'F' then some (c.toNat - 0x37)
  else none

/-- Four hexadecimal digits at the front. -/
def readUnit : List Char → Option (Nat × List Char)
  | a :: b :: c :: d :: rest => do
    let a ← hexValue? a
    let b ← hexValue? b
    let c ← hexValue? c
    let d ← hexValue? d
    return (((a * 16 + b) * 16 + c) * 16 + d, rest)
  | _ => none

/-- The character a high and a low unit stand for together. -/
def joinUnits (hi lo : Nat) : Char :=
  Char.ofNat (0x10000 + (hi - 0xd800) * 0x400 + (lo - 0xdc00))

/-- A unit that is half of a pair and stands alone reads as the replacement character. -/
def unitChar (n : Nat) : Char :=
  if 0xd800 ≤ n && n ≤ 0xdfff then Char.ofNat 0xfffd else Char.ofNat n

/-- What an escape stands for, from the character after the backslash. -/
def readEscape : List Char → Option (Char × List Char)
  | '"' :: rest => some ('"', rest)
  | '\\' :: rest => some ('\\', rest)
  | '/' :: rest => some ('/', rest)
  | 'b' :: rest => some ('\x08', rest)
  | 'f' :: rest => some ('\x0c', rest)
  | 'n' :: rest => some ('\n', rest)
  | 'r' :: rest => some ('\r', rest)
  | 't' :: rest => some ('\t', rest)
  | 'u' :: rest => do
    let (hi, rest) ← readUnit rest
    match rest with
    | '\\' :: 'u' :: more =>
      match readUnit more with
      | some (lo, more) =>
        if 0xd800 ≤ hi && hi ≤ 0xdbff && 0xdc00 ≤ lo && lo ≤ 0xdfff then
          return (joinUnits hi lo, more)
        else return (unitChar hi, rest)
      | none => return (unitChar hi, rest)
    | _ => return (unitChar hi, rest)
  | _ => none

/-- The characters of a string up to its closing quote. -/
def readChars : Nat → List Char → Option (List Char × List Char)
  | 0, _ => none
  | _ + 1, [] => none
  | _ + 1, '"' :: rest => some ([], rest)
  | n + 1, '\\' :: rest => do
    let (c, rest) ← readEscape rest
    let (cs, rest) ← readChars n rest
    return (c :: cs, rest)
  | n + 1, c :: rest =>
    if c.toNat < 0x20 then none
    else do
      let (cs, rest) ← readChars n rest
      return (c :: cs, rest)

/-- The number written by a run of digits. -/
def digitsValue (ds : List Char) : Nat :=
  ds.foldl (fun n d => n * 10 + (d.toNat - 0x30)) 0

/-- A run of digits at the front, at least one. -/
def readDigits (cs : List Char) : Option (List Char × List Char) :=
  match cs.takeWhile Char.isDigit with
  | [] => none
  | ds => some (ds, cs.dropWhile Char.isDigit)

/-- The whole part: a lone zero, or digits that do not begin with one. -/
def readWhole : List Char → Option (List Char × List Char)
  | '0' :: rest => some (['0'], rest)
  | cs => readDigits cs

/-- The digits after a point, none when there is no fraction. -/
def readFraction : List Char → List Char × List Char
  | '.' :: rest => (readDigits rest).getD ([], '.' :: rest)
  | cs => ([], cs)

/-- The digits of an exponent and its sign. -/
def readSignedDigits : List Char → Option (Int × List Char)
  | '-' :: rest => (readDigits rest).map fun r => (-(digitsValue r.1 : Int), r.2)
  | '+' :: rest => (readDigits rest).map fun r => ((digitsValue r.1 : Int), r.2)
  | cs => (readDigits cs).map fun r => ((digitsValue r.1 : Int), r.2)

/-- The exponent, when there is one. -/
def readExponent : List Char → Option (Int × List Char)
  | 'e' :: rest => readSignedDigits rest
  | 'E' :: rest => readSignedDigits rest
  | _ => none

/-- A number without its sign. -/
def readMagnitude (negative : Bool) (cs : List Char) : Option (Json × List Char) := do
  let signed (n : Nat) : Int := if negative then -(n : Int) else n
  let (whole, rest) ← readWhole cs
  let (fraction, rest) := readFraction rest
  match readExponent rest with
  | some (e, rest) =>
    return (.decimal (signed (digitsValue (whole ++ fraction))) (e - fraction.length), rest)
  | none =>
    if fraction.isEmpty then return (.int (signed (digitsValue whole)), rest)
    else
      let mantissa := signed (digitsValue (whole ++ fraction))
      return (.decimal mantissa (-(fraction.length : Int)), rest)

/-- A number, or one of the names of a number that is not finite. -/
def readNumber : List Char → Option (Json × List Char)
  | 'N' :: 'a' :: 'N' :: rest => some (.nonFinite, rest)
  | 'I' :: 'n' :: 'f' :: 'i' :: 'n' :: 'i' :: 't' :: 'y' :: rest => some (.nonFinite, rest)
  | '-' :: 'I' :: 'n' :: 'f' :: 'i' :: 'n' :: 'i' :: 't' :: 'y' :: rest => some (.nonFinite, rest)
  | '-' :: rest => readMagnitude true rest
  | cs => readMagnitude false cs

mutual

/-- One value at the front of the text. -/
def readValue : Nat → List Char → Option (Json × List Char)
  | 0, _ => none
  | n + 1, cs =>
    match cs with
    | 'n' :: 'u' :: 'l' :: 'l' :: rest => some (.null, rest)
    | 't' :: 'r' :: 'u' :: 'e' :: rest => some (.bool true, rest)
    | 'f' :: 'a' :: 'l' :: 's' :: 'e' :: rest => some (.bool false, rest)
    | '"' :: rest => do
      let (s, rest) ← readChars (rest.length + 1) rest
      return (.str (String.ofList s), rest)
    | '[' :: rest =>
      match skipGap rest with
      | ']' :: rest => some (.arr [], rest)
      | rest => do
        let (xs, rest) ← readItems n rest
        return (.arr xs, rest)
    | '{' :: rest =>
      match skipGap rest with
      | '}' :: rest => some (.obj [], rest)
      | rest => do
        let (fs, rest) ← readFields n rest
        return (.obj (Table.ofEntries fs), rest)
    | cs => readNumber cs

/-- The items of an array from its next item to its closing bracket. -/
def readItems : Nat → List Char → Option (List Json × List Char)
  | 0, _ => none
  | n + 1, cs => do
    let (x, rest) ← readValue n cs
    match skipGap rest with
    | ']' :: rest => return ([x], rest)
    | ',' :: rest => do
      let (xs, rest) ← readItems n (skipGap rest)
      return (x :: xs, rest)
    | _ => none

/-- The fields of an object from its next key to its closing brace. -/
def readFields : Nat → List Char → Option (List (String × Json) × List Char)
  | 0, _ => none
  | n + 1, cs =>
    match cs with
    | '"' :: rest => do
      let (key, rest) ← readChars (rest.length + 1) rest
      match skipGap rest with
      | ':' :: rest => do
        let (v, rest) ← readValue n (skipGap rest)
        match skipGap rest with
        | '}' :: rest => return ([(String.ofList key, v)], rest)
        | ',' :: rest => do
          let (fs, rest) ← readFields n (skipGap rest)
          return ((String.ofList key, v) :: fs, rest)
        | _ => none
      | _ => none
    | _ => none

end

/-- The value that the whole text denotes. -/
def parse? (s : String) : Option Json := do
  let cs := s.toList
  let (v, rest) ← readValue (cs.length + 1) (skipGap cs)
  if (skipGap rest).isEmpty then return v else none

end Ambient.Json
