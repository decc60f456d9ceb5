import Ambient.Source.Expression

/-!
# Elements

Markup inside expressions: elements with attributes and children, self-closing elements, and
fragments without a name.
-/

namespace Ambient.Source

open Reader Text

variable (g : Grammar)

/-- The length of a name of markup, which may have dashes. -/
def markupNameLength (cs : List Char) : Nat :=
  match cs with
  | c :: rest =>
    if isWordStart c then (rest.takeWhile fun d => isWordPart d || d == '-').length + 1 else 0
  | [] => 0

/-- One part of a name of markup. -/
def markupWord (k : Kind) : Reader Node := do
  let n := markupNameLength (← ahead)
  require (n != 0)
  leaf k n

/-- The rest of a dotted name. -/
def dottedName (a : Cursor) : (limit : Nat) → Node → Reader Node
  | 0, n => pure n
  | k + 1, n =>
    (do
      let dot ← token "."
      let property ← part .property (markupWord .propertyIdentifier)
      let m ← nodeSince a .memberExpression (n.as .receiver :: dot ++ property)
      dottedName a k m) <|> pure n

/-- The name of an element or an attribute: plain, in a namespace, or dotted. -/
def markupName (plain : Kind) : Reader Node := do
  let a ← get
  let first ← markupWord plain
  (do
    let colon ← token ":"
    let second ← sub (markupWord plain)
    nodeSince a .jsxNamespaceName (first :: colon ++ second)) <|>
  dottedName a g.limit first

/-- An expression in braces. -/
def embedded : Reader Node :=
  node .jsxExpression do
    let opening ← here "\x7b"
    let inner ← optionally (sub (spread g <|> expressions g .enclosed))
    return opening :: inner ++ (← token "\x7d")

/-- The value of an attribute. -/
def attributeValue : Reader Node := do
  match ← ahead with
  | '<' :: _ => g.element
  | '{' :: _ => embedded g
  | q :: cs =>
    require (q == '"' || q == '\x27')
    let inner := cs.takeWhile (· != q)
    require ((cs.drop inner.length).head? == some q)
    leaf .string (inner.length + 2)
  | [] => failure

/-- An attribute, or an expression spread into attributes. -/
def markupAttribute : Reader (List Node) := do
  let comments ← lead
  match ← ahead with
  | '{' :: _ => return comments ++ [← embedded g]
  | _ =>
    return comments ++ [← node .jsxAttribute do
      let name ← markupName g .propertyIdentifier
      let value ← optionally do
        let sign ← token "="
        return sign ++ (← sub (attributeValue g))
      return name :: value]

/-- Text between elements. -/
def elementText : Reader Node := do
  let n := ((← ahead).takeWhile fun c => c ∉ ['<', '>', '{', '}', '&']).length
  require (n != 0)
  leaf .jsxText n

/-- How many characters name a character, by its number or by a word; none when they do not. -/
def referenceLength? (cs : List Char) : Option Nat :=
  let counted (most lead : Nat) (p : Char → Bool) (digits : List Char) : Option Nat :=
    let n := (digits.takeWhile p).length
    if 0 < n && n ≤ most then some (lead + n) else none
  match cs with
  | '#' :: 'x' :: ds => counted 6 2 isHex ds
  | '#' :: 'X' :: ds => counted 6 2 isHex ds
  | '#' :: ds => counted 5 1 Char.isDigit ds
  | _ => counted 30 0 Char.isAlpha cs

/-- A character given by its number or its name, between an ampersand and a semicolon. -/
def characterReference : Reader Node := do
  match ← ahead with
  | '&' :: cs =>
    match referenceLength? cs with
    | some n =>
      require ((cs.drop n).head? == some ';')
      leaf .htmlCharacterReference (n + 2)
    | none => failure
  | _ => failure

/-- What may stand inside an element. -/
def elementChild : Reader (List Node) := do
  match ← ahead with
  | '<' :: '/' :: _ => failure
  | '<' :: _ => return [← g.element]
  | '{' :: _ => return [← embedded g]
  | '&' :: _ => return [← characterReference]
  | _ => return [← elementText]

/-- The tag that closes an element. -/
def closingTag : Reader Node :=
  node .jsxClosingElement do
    let opening ← here "<"
    let slash ← token "/"
    let name ← optionally (part .name (markupName g .identifier))
    return opening :: slash ++ name ++ (← token ">")

/-- An element. -/
def element : Reader Node := do
  let a ← get
  let opening ← here "<"
  let name ← optionally (part .name (markupName g .identifier))
  let attributes ← if name.isEmpty then pure [] else many (markupAttribute g) g.limit
  (do
    require !name.isEmpty
    let slash ← token "/"
    let closing ← token ">"
    nodeSince a .jsxSelfClosingElement (opening :: name ++ attributes ++ slash ++ closing)) <|> do
    let closing ← token ">"
    let tag ← nodeSince a .jsxOpeningElement (opening :: name ++ attributes ++ closing)
    let children ← many (elementChild g) g.limit
    let close ← closingTag g
    nodeSince a .jsxElement (tag :: children ++ [close])

end Ambient.Source
