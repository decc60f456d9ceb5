import Ambient.Source.Gap
import Ambient.Text.Cut

/-!
# Tokens

Readers of single tokens.  `lead` takes the comments before the next construct, `token` and `word`
take one fixed token together with the comments before it, and `sub` reads a construct together
with the comments before it.  All of them give lists of nodes, to be joined into the children of
the construct they belong to.
-/

namespace Ambient.Source

open Reader Text

/-- The comments before the next construct. -/
def lead : Reader (List Node) := do
  let c ← get
  let (comments, c) := skipGap true c.bound c
  set c
  return comments

/-- The comments before the next token of the same construct. -/
def gap : Reader (List Node) := do
  let c ← get
  let (comments, c) := skipGap false c.bound c
  set c
  return comments

/-- A token at the cursor. -/
def here (text : String) : Reader Node := do
  require (after? text.toList (← ahead)).isSome
  leaf (.token text) text.length

/-- A fixed token and the comments before it. -/
def token (text : String) : Reader (List Node) := do
  let comments ← gap
  return comments ++ [← here text]

/-- A construct and the comments before it. -/
def sub (r : Reader Node) : Reader (List Node) := do
  let comments ← lead
  return comments ++ [← r]

/-- A construct in a role and the comments before it. -/
def part (role : Role) (r : Reader Node) : Reader (List Node) :=
  sub do return (← r).as role

/-- The next token, behind white space and comments, begins with `text`. -/
def upcoming (text : String) : Reader Bool :=
  look do
    let _ ← lead
    return (after? text.toList (← ahead)).isSome

/-! ### Words -/

/-- Punctuation, digits, blanks and controls begin no word. -/
def isWordStart (c : Char) : Bool :=
  !(c.toNat < 0x20 || isSpace c || c.isDigit ||
    [':', ';', '`', '"', '\x27', '@', '#', '.', ',', '|', '^', '&', '<', '=', '>', '+', '-', '*',
     '/', '\\', '%', '?', '!', '~', '(', ')', '[', ']', '{', '}'].contains c)

/-- Digits continue a word. -/
def isWordPart (c : Char) : Bool :=
  isWordStart c || c.isDigit

/-- A hexadecimal digit. -/
def isHex (c : Char) : Bool :=
  c.isDigit || ('a' ≤ c && c ≤ 'f') || ('A' ≤ c && c ≤ 'F')

/-- The length of a character written by its code point, from the backslash on. -/
def codePointLength? : List Char → Option Nat
  | '\\' :: 'u' :: '{' :: cs =>
    let digits := cs.takeWhile isHex
    if !digits.isEmpty && (cs.drop digits.length).head? == some '}' then some (digits.length + 4)
    else none
  | '\\' :: 'u' :: a :: b :: c :: d :: _ =>
    if isHex a && isHex b && isHex c && isHex d then some 6 else none
  | _ => none

/-- The length of the rest of a word; `braced` says that a code point in braces is being read. -/
def wordRest : (braced : Bool) → List Char → Nat
  | _, [] => 0
  | true, c :: cs => if isHex c then wordRest true cs + 1
    else if c == '}' then wordRest false cs + 1 else 0
  | false, '\\' :: 'u' :: '{' :: cs => wordRest true cs + 3
  | false, '\\' :: 'u' :: cs => if (cs.take 4).all isHex then wordRest false cs + 2 else 0
  | false, c :: cs => if isWordPart c then wordRest false cs + 1 else 0

/-- The length of a word at the front, none when no word begins there. -/
def wordLength? (cs : List Char) : Option Nat :=
  match cs with
  | [] => none
  | c :: rest =>
    if isWordStart c then some (wordRest false rest + 1)
    else (codePointLength? cs).map fun _ => wordRest false cs

/-- The word at the front of a text, the empty text when there is none. -/
def wordAt (cs : List Char) : String :=
  String.ofList (cs.take ((wordLength? cs).getD 0))

/-- The word at the cursor. -/
def wordHere : Reader String := do
  return wordAt (← ahead)

/-- The next word, behind white space and comments. -/
def upcomingWord : Reader String := fun c =>
  some (wordAt (skipGap true c.bound c).2.rest, c)

/-- A fixed word and the comments before it. -/
def word (text : String) : Reader (List Node) := do
  let comments ← gap
  require ((← wordHere) == text)
  return comments ++ [← leaf (.token text) text.length]

/-- A fixed word that begins a construct, so nothing of the construct stands before it. -/
def firstWord (text : String) : Reader Node := do
  require ((← wordHere) == text)
  leaf (.token text) text.length

/-- The words that are no identifiers. -/
def reserved : List String :=
  ["break", "case", "catch", "class", "const", "continue", "debugger", "default", "delete", "do",
   "else", "export", "extends", "false", "finally", "for", "function", "if", "import", "in",
   "instanceof", "new", "null", "return", "super", "switch", "this", "throw", "true", "try",
   "typeof", "var", "void", "while", "with"]

/-- The words that always begin something where a statement may begin, so that there they are
neither a label nor the first key of an object. -/
def openers : List String :=
  ["break", "class", "const", "continue", "debugger", "delete", "do", "export", "false", "for",
   "function", "if", "import", "new", "null", "return", "super", "switch", "this", "throw",
   "true", "try", "typeof", "undefined", "var", "void", "while", "with", "yield"]

/-- A word of any kind, as a node. -/
def anyWord (k : Kind) : Reader Node := do
  match wordLength? (← ahead) with
  | some n => leaf k n
  | none => failure

/-- A word that is not reserved, as a node. -/
def nameWord (k : Kind) : Reader Node := do
  require (!reserved.contains (← wordHere))
  anyWord k

/-- An identifier. -/
def identifier : Reader Node :=
  nameWord .identifier

/-- A private name. -/
def privateName : Reader Node := do
  match ← ahead with
  | '#' :: cs =>
    match wordLength? cs with
    | some n => leaf .privatePropertyIdentifier (n + 1)
    | none => failure
  | _ => failure

/-! ### Ends of statements -/

/-- The statement may end behind the last token. -/
def mayEnd (bare : Bool) : Reader Bool := do
  return endsHere bare (← bound) (← ahead)

/-- Where an expression stands: at the level of statements, where a line break may end it, or
between brackets, where it may not. -/
inductive Place where
  | loose
  | enclosed
  deriving DecidableEq

/-- The comments before an operator, unless the statement ends first. -/
def beforeOperator : (limit : Nat) → Reader (List Node)
  | 0 => failure
  | n + 1 => do
    require !(← mayEnd false)
    modify skipSpace
    match comment? false (← get) with
    | some (comment, c) => do
      set c
      return comment :: (← beforeOperator n)
    | none => return []

/-- The comments before an operator that continues an expression. -/
def continuation (place : Place) : Reader (List Node) := do
  match place with
  | .loose => beforeOperator (← bound)
  | .enclosed => gap

/-- The construct goes on behind the last token and the comments after it. -/
def goesOn (place : Place) : Reader Bool :=
  look do
    let _ ← continuation place
    return true

/-- The end of a statement within `limit` comments. -/
def semicolonWithin (bare : Bool) : (limit : Nat) → Reader (List Node)
  | 0 => failure
  | n + 1 => do
    if ← mayEnd bare then return []
    modify skipSpace
    match comment? false (← get) with
    | some (comment, c) => do
      set c
      return comment :: (← semicolonWithin bare n)
    | none => return [← here ";"]

/-- The end of a statement: written, or understood. -/
def semicolon (bare : Bool) : Reader (List Node) := do
  semicolonWithin bare (← bound)

/-! ### Literals -/

/-- The length of a run of digits with single underscores between them. -/
def digitRun (p : Char → Bool) : List Char → Nat
  | [] => 0
  | '_' :: c :: cs => if p c then digitRun p (c :: cs) + 1 else 0
  | c :: cs => if p c then digitRun p cs + 1 else 0

/-- The length of an exponent. -/
def exponentLength : List Char → Nat
  | [] => 0
  | e :: cs =>
    if e == 'e' || e == 'E' then
      let sign := match cs with
        | '+' :: _ => 1
        | '-' :: _ => 1
        | _ => 0
      let digits := digitRun Char.isDigit (cs.drop sign)
      if digits = 0 then 0 else digits + sign + 1
    else 0

/-- The length of a number with a base of its own. -/
def basedLength (p : Char → Bool) (cs : List Char) : Nat :=
  let digits := match cs with
    | c :: _ => if p c then digitRun p cs else 0
    | [] => 0
  if digits = 0 then 0
  else if (cs.drop digits).head? == some 'n' then digits + 1 else digits

/-- Digits that a fraction or an exponent may follow: a zero in front of them stands alone, or before
a digit that is not zero. -/
def isDecimalInteger : List Char → Bool
  | '0' :: c :: _ => '1' ≤ c && c ≤ '9'
  | _ => true

/-- The length of a decimal number. -/
def decimalLength (cs : List Char) : Nat :=
  let whole := match cs with
    | c :: _ => if c.isDigit then digitRun Char.isDigit cs else 0
    | [] => 0
  let rest := cs.drop whole
  if rest.head? == some 'n' then
    if whole = 0 then 0 else whole + 1
  else if !isDecimalInteger (cs.take whole) then whole
  else match rest with
    | '.' :: c :: more =>
      let fraction := if c.isDigit then digitRun Char.isDigit (c :: more) else 0
      if whole = 0 && fraction = 0 then 0
      else whole + 1 + fraction + exponentLength (rest.drop (fraction + 1))
    | ['.'] => if whole = 0 then 0 else whole + 1
    | _ => if whole = 0 then 0 else whole + exponentLength rest

/-- The length of a number at the front, zero when there is none. -/
def numberLength : List Char → Nat
  | '0' :: b :: cs =>
    let based := if b == 'x' || b == 'X' then basedLength isHex cs
      else if b == 'o' || b == 'O' then basedLength (fun c => '0' ≤ c && c ≤ '7') cs
      else if b == 'b' || b == 'B' then basedLength (fun c => c == '0' || c == '1') cs
      else 0
    if based = 0 then decimalLength ('0' :: b :: cs) else based + 2
  | cs => decimalLength cs

/-- A number. -/
def number : Reader Node := do
  let n := numberLength (← ahead)
  require (n != 0)
  leaf .number n

/-- The length of an escape, the backslash included. -/
def escapeLength? : List Char → Option Nat
  | '\\' :: '\r' :: '\n' :: _ => some 3
  | '\\' :: 'x' :: a :: b :: _ => if isHex a && isHex b then some 4 else none
  | '\\' :: 'u' :: cs => codePointLength? ('\\' :: 'u' :: cs)
  | '\\' :: c :: cs =>
    if '0' ≤ c && c ≤ '7' then
      some (((c :: cs).take 3).takeWhile (fun d => '0' ≤ d && d ≤ '7')).length.succ
    else if c == 'x' then none
    else some 2
  | _ => none

/-- A run of characters or an escape inside a quoted string. -/
def stringPart (quote : Char) : Reader (List Node) := do
  let cs ← ahead
  let run := cs.takeWhile fun c => !(c == quote || c == '\\' || c == '\r' || c == '\n')
  if !run.isEmpty then return [← leaf .stringFragment run.length]
  match escapeLength? cs with
  | some n => return [← leaf .escapeSequence n]
  | none => failure

/-- A string between either quotes. -/
def string : Reader Node := do
  let cs ← ahead
  match cs with
  | q :: _ =>
    require (q == '"' || q == '\x27')
    let quote := String.ofList [q]
    node .string do
      let opening ← here quote
      let parts ← many (stringPart q) (← bound)
      return opening :: parts ++ (← token quote)
  | [] => failure

/-- The length of the body of a regular expression; a slash inside a class does not end it. -/
def patternLength : (inClass : Bool) → List Char → Nat
  | _, [] => 0
  | inClass, '\\' :: c :: cs => if c == '\n' then 0 else patternLength inClass cs + 2
  | inClass, c :: cs =>
    if c == '\n' then 0
    else if inClass then patternLength (c != ']') cs + 1
    else if c == '/' then 0
    else patternLength (c == '[') cs + 1

/-- A regular expression. -/
def regex : Reader Node :=
  node .regex do
    let opening ← here "/"
    let n := patternLength false (← ahead)
    require (n != 0)
    let pattern ← leaf .regexPattern n
    let closing ← here "/"
    let flags := ((← ahead).takeWhile fun c => 'a' ≤ c && c ≤ 'z').length
    if flags = 0 then return [opening, pattern, closing]
    else return [opening, pattern, closing, ← leaf .regexFlags flags]

end Ambient.Source
