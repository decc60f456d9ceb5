import Ambient.Source.Node

/-!
# Reading positions

A cursor is the rest of the source with its offset and line, and the length of the whole source, so
that what is left can be counted without walking it.  A reader takes a cursor and either
gives a result and the cursor after it, or fails; a failed alternative leaves no trace, so
alternatives are tried one after another with `<|>`.  Every reader stops right behind the last
token it took: the white space and comments after it belong to whoever takes the next token.
-/

namespace Ambient

/-- A position in a source. -/
structure Cursor where
  rest : List Char
  offset : Nat
  line : Nat
  stop : Nat
  deriving Inhabited

namespace Cursor

/-- The start of a source. -/
def start (cs : List Char) : Cursor :=
  ⟨cs, 0, 1, cs.length⟩

/-- A bound on the number of tokens left, one more than the characters left. -/
def bound (c : Cursor) : Nat :=
  c.stop - c.offset + 1

/-- The position after one character; only a line feed begins a new line. -/
def step (c : Cursor) : Cursor :=
  match c.rest with
  | [] => c
  | ch :: rest => ⟨rest, c.offset + 1, if ch == '\n' then c.line + 1 else c.line, c.stop⟩

/-- The position after `n` characters. -/
def advance : Nat → Cursor → Cursor
  | 0, c => c
  | n + 1, c => advance n c.step

/-- The text between two positions. -/
def textTo (a b : Cursor) : String :=
  String.ofList (a.rest.take (b.offset - a.offset))

/-- The `length` characters from an offset on. -/
def slice (a : Cursor) (offset length : Nat) : String :=
  String.ofList ((a.rest.drop (offset - a.offset)).take length)

end Cursor

/-- A reader of part of a source. -/
abbrev Reader := StateT Cursor Option

namespace Reader

/-- The characters at the cursor. -/
def ahead : Reader (List Char) := do
  return (← get).rest

/-- A bound on the number of tokens left. -/
def bound : Reader Nat := do
  return (← get).bound

/-- Fails unless the condition holds. -/
def require (b : Bool) : Reader Unit :=
  if b then pure () else failure

/-- The result of a reader, when it succeeds; the cursor stays where it is. -/
def look (r : Reader Bool) : Reader Bool := fun c =>
  match r c with
  | some (b, _) => some (b, c)
  | none => some (false, c)

/-- A node of the given kind over what `body` reads. -/
def node (k : Kind) (body : Reader (List Node)) : Reader Node := do
  let a ← get
  let children ← body
  let b ← get
  return ⟨k, none, a.textTo b, a.line, a.offset, children⟩

/-- A node over what was read since an earlier position. -/
def nodeSince (a : Cursor) (k : Kind) (children : List Node) : Reader Node := do
  let b ← get
  return ⟨k, none, a.textTo b, a.line, a.offset, children⟩

/-- A node that covers its children exactly, read since an earlier position. -/
def nodeAround (a : Cursor) (k : Kind) (first last : Node) (children : List Node) : Node :=
  ⟨k, none, a.slice first.start (last.start + last.text.length - first.start), first.line,
    first.start, children⟩

/-- A node without children over the next `n` characters. -/
def leaf (k : Kind) (n : Nat) : Reader Node :=
  node k do
    modify (Cursor.advance n)
    return []

/-- Reads items until one fails or takes nothing; at most `limit` of them. -/
def many (item : Reader (List Node)) : (limit : Nat) → Reader (List Node)
  | 0 => pure []
  | n + 1 => fun c =>
    match item c with
    | none => some ([], c)
    | some (xs, d) =>
      if c.offset < d.offset then
        match many item n d with
        | some (ys, e) => some (xs ++ ys, e)
        | none => none
      else some ([], c)

/-- An optional part. -/
def optionally (r : Reader (List Node)) : Reader (List Node) :=
  r <|> pure []

end Reader

end Ambient
