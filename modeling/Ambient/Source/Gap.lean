import Ambient.Source.Cursor

/-!
# Between two tokens

White space and comments, and the rule that ends a statement without a semicolon.  The rule looks
only at the characters behind the last token: a statement may end at the end of the source, before
a closing brace, and at a line break unless the next line begins with something that continues an
expression.  A comment behind the last token is read before the rule is asked again, except that
where no operator could follow a comment with a line break in it ends the statement at once.
-/

namespace Ambient.Source

/-- White space between tokens. -/
def isSpace (c : Char) : Bool :=
  let n := c.toNat
  (0x09 ≤ n && n ≤ 0x0d) || n == 0x20 || n == 0xa0 || n == 0x1680 ||
    (0x2000 ≤ n && n ≤ 0x200b) || n == 0x2028 || n == 0x2029 || n == 0x202f || n == 0x205f ||
    n == 0x2060 || n == 0x3000 || n == 0xfeff

/-- White space as the rule for line ends sees it: it does not join lines by a no-break space. -/
def isPlainSpace (c : Char) : Bool :=
  let n := c.toNat
  (0x09 ≤ n && n ≤ 0x0d) || n == 0x20 || n == 0x1680 || (0x2000 ≤ n && n ≤ 0x2006) ||
    (0x2008 ≤ n && n ≤ 0x200a) || n == 0x2028 || n == 0x2029 || n == 0x205f || n == 0x3000

/-- A line feed or one of the two separators. -/
def isLineEnd (c : Char) : Bool :=
  c == '\n' || c.toNat == 0x2028 || c.toNat == 0x2029

/-- What ends a line comment. -/
def endsLineComment (c : Char) : Bool :=
  isLineEnd c || c == '\r'

/-- The length of a block comment from behind its opening, its closing included. -/
def blockLength? : List Char → Option Nat
  | [] => none
  | '*' :: '/' :: _ => some 2
  | _ :: cs => (blockLength? cs).map (· + 1)

/-- The length of a comment at the front. -/
def commentLength? : List Char → Option Nat
  | '/' :: '/' :: cs => some ((cs.takeWhile (!endsLineComment ·)).length + 2)
  | '/' :: '*' :: cs => (blockLength? cs).map (· + 2)
  | _ => none

/-- The length of a comment in the old style of embedded scripts. -/
def htmlCommentLength? : List Char → Option Nat
  | '<' :: '!' :: '-' :: '-' :: cs => some ((cs.takeWhile (!isLineEnd ·)).length + 4)
  | '-' :: '-' :: '>' :: cs => some ((cs.takeWhile (!isLineEnd ·)).length + 3)
  | _ => none

/-- The comment at the cursor, when there is one. -/
def comment? (html : Bool) (c : Cursor) : Option (Node × Cursor) :=
  match commentLength? c.rest with
  | some n => Reader.leaf .comment n c
  | none =>
    if html then
      match htmlCommentLength? c.rest with
      | some n => Reader.leaf .htmlComment n c
      | none => none
    else none

/-- The position of the next character that is no white space. -/
def skipSpace (c : Cursor) : Cursor :=
  c.advance (c.rest.takeWhile isSpace).length

/-- The comments before the next token, and the position of that token. -/
def skipGap (html : Bool) : (limit : Nat) → Cursor → List Node × Cursor
  | 0, c => ([], c)
  | n + 1, c =>
    let c := skipSpace c
    match comment? html c with
    | some (comment, c) =>
      let r := skipGap html n c
      (comment :: r.1, r.2)
    | none => ([], c)

/-- How looking past white space and comments ended. -/
inductive Glance where
  /-- At this text, a line break among the comments or no block comment at the end. -/
  | clear (cs : List Char)
  /-- Behind a block comment without a line break. -/
  | sameLine (cs : List Char)
  /-- At a slash that opens no comment. -/
  | slash

/-- What follows a block comment, and whether a line ends in it. -/
def pastBlock : (ended : Bool) → List Char → List Char × Bool × Bool
  | ended, [] => ([], ended, false)
  | ended, '*' :: '/' :: cs => (cs, ended, true)
  | ended, c :: cs => pastBlock (ended || isLineEnd c) cs

/-- Looks past white space and comments; unless `through`, a block comment stops the look. -/
def glance (through : Bool) : (limit : Nat) → (ended : Bool) → List Char → Glance
  | 0, _, _ => .slash
  | n + 1, ended, cs =>
    match cs.dropWhile isPlainSpace with
    | '/' :: '/' :: rest => glance through n ended (rest.dropWhile (!isLineEnd ·))
    | '/' :: '*' :: rest =>
      match pastBlock ended rest with
      | (rest, ended, true) =>
        if rest.head? != some '/' && !through then
          if ended then .clear rest else .sameLine rest
        else glance through n ended rest
      | (rest, _, false) => .clear rest
    | '/' :: _ => .slash
    | rest => .clear rest

/-- The words that continue an expression on the next line. -/
def continuesByWord (cs : List Char) : Bool :=
  let word := cs.takeWhile Char.isAlpha
  word == "in".toList || word == "instanceof".toList

/-- The next line does not continue the expression before it. -/
def opensStatement : List Char → Bool
  | '.' :: c :: _ => c.isDigit
  | ['.'] => false
  | '+' :: c :: _ => c == '+'
  | ['+'] => false
  | '-' :: c :: _ => c == '-'
  | ['-'] => false
  | '!' :: '=' :: _ => false
  | cs =>
    match cs with
    | c :: _ =>
      if ['`', ',', ':', ';', '*', '%', '>', '<', '=', '[', '(', '?', '^', '|', '&', '/'].contains c
      then false
      else !continuesByWord cs
    | [] => true

/-- The line that begins here opens a new statement. -/
def opensLine (limit : Nat) (cs : List Char) : Bool :=
  match glance true limit false cs with
  | .clear rest => opensStatement rest
  | .sameLine rest => opensStatement rest
  | .slash => false

/-- What a brace, a line break, other white space (`next` decides) and anything else say. -/
def endsAt (limit : Nat) (next : List Char → Bool) : List Char → Bool
  | [] => false
  | c :: cs =>
    if c == '}' then true
    else if isLineEnd c then opensLine limit cs
    else isPlainSpace c && next cs

/-- A statement may end here although no semicolon is written.  `bare` says that no operator could
follow the last token. -/
def endsHere (bare : Bool) : (limit : Nat) → List Char → Bool
  | 0, _ => false
  | n + 1, cs =>
    match cs with
    | [] => true
    | '/' :: _ =>
      match glance false (n + 1) false cs with
      | .slash => false
      | .clear rest =>
        (bare && rest.head? != some ',' && rest.head? != some '=') ||
          endsAt (n + 1) (endsHere bare n) rest
      | .sameLine rest => endsAt (n + 1) (endsHere bare n) rest
    | _ => endsAt (n + 1) (endsHere bare n) cs

end Ambient.Source
