import Ambient.Source.Pattern
import Ambient.Source.Token

/-!
# The grammar and its common parts

The readers of the language are mutually recursive: statements hold expressions, expressions hold
functions, functions hold statements.  `Grammar` is the record of the readers that the others call
back into.  A layer of the language turns a grammar into a deeper one, and a source is read with as
many layers as it can nest, so each reader is an ordinary function of the grammar below it.
-/

namespace Ambient.Source

open Reader Text

/-- The readers that other readers call back into, and a bound on repetitions. -/
structure Grammar where
  limit : Nat
  expression : Place → Reader Node
  operand : Place → Reader Node
  statement : Reader Node
  element : Reader Node

namespace Grammar

/-- The grammar in which nothing can be read. -/
def empty (limit : Nat) : Grammar :=
  ⟨limit, fun _ => failure, fun _ => failure, failure, failure⟩

end Grammar

variable (g : Grammar)

/-- Expressions separated by commas, as one expression. -/
def expressions (place : Place) : Reader Node := do
  let a ← get
  let first ← g.expression place
  let others ← many (do
    let comments ← continuation place
    let comma ← here ","
    return comments ++ comma :: (← sub (g.expression place))) g.limit
  if others.isEmpty then return first
  else nodeSince a .sequenceExpression (first :: others)

/-- A spread element. -/
def spread : Reader Node :=
  node .spreadElement do
    let dots ← here "..."
    return dots :: (← sub (g.expression .enclosed))

/-- An expression or a spread element. -/
def listItem : Reader Node :=
  spread g <|> g.expression .enclosed

/-- Items separated by commas up to `closing`, with their commas and comments.  Items may be
missing between commas. -/
def commaList (item : Reader Node) (closing : String) : (limit : Nat) → Reader (List Node)
  | 0 => failure
  | n + 1 => do
    let comments ← lead
    if (after? closing.toList (← ahead)).isSome then return comments
    match ← ahead with
    | ',' :: _ => do
      let comma ← here ","
      return comments ++ comma :: (← commaList item closing n)
    | _ => do
      let first ← item
      if ← upcoming "," then do
        let comma ← token ","
        return comments ++ first :: comma ++ (← commaList item closing n)
      else return comments ++ first :: (← lead)

/-- The items of a list, without commas and comments. -/
def itemsOf (ns : List Node) : List Node :=
  ns.filter fun n => n.isNamed && !n.isComment

/-- No item is missing before a comma. -/
def isDense (ns : List Node) : Bool :=
  let rec go : (afterItem : Bool) → List Node → Bool
    | _, [] => true
    | afterItem, n :: ns =>
      if n.kind == .token "," then afterItem && go false ns
      else if n.isNamed && !n.isComment then go true ns
      else go afterItem ns
  go false ns

/-- The parameters of a function, from a list of expressions. -/
def parameterNodes? (ns : List Node) : Option (List Node) :=
  if isDense ns then Node.itemPatterns? ns else none

/-- The parameters of a function. -/
def formalParameters : Reader Node :=
  node .formalParameters do
    let opening ← here "("
    let items ← commaList (listItem g) ")" g.limit
    let closing ← token ")"
    match parameterNodes? items with
    | some ps => return opening :: ps ++ closing
    | none => failure

/-- The arguments of a call. -/
def arguments : Reader Node :=
  node .arguments do
    let opening ← here "("
    let items ← commaList (listItem g) ")" g.limit
    return opening :: items ++ (← token ")")

/-- Statements up to a closing brace, comments included. -/
def statements : Reader (List Node) := do
  let body ← many (sub g.statement) g.limit
  return body ++ (← lead)

/-- Statements between braces. -/
def block : Reader Node :=
  node .statementBlock do
    let opening ← here "\x7b"
    let body ← statements g
    return opening :: body ++ (← token "\x7d")

/-- A name in brackets. -/
def computedName : Reader Node :=
  node .computedPropertyName do
    let opening ← here "["
    let inner ← sub (g.expression .enclosed)
    return opening :: inner ++ (← token "]")

/-- The name of a property. -/
def propertyName : Reader Node :=
  anyWord .propertyIdentifier <|> privateName <|> string <|> number <|> computedName g

/-- A property name begins here. -/
def beginsName (cs : List Char) : Bool :=
  (wordLength? cs).isSome ||
    match cs with
    | '#' :: _ => true
    | '"' :: _ => true
    | '\x27' :: _ => true
    | '[' :: _ => true
    | '*' :: _ => true
    | '.' :: c :: _ => c.isDigit
    | c :: _ => c.isDigit
    | [] => false

/-- A word before a property name.  Where lines end statements, a word at the end of its line is a
name itself. -/
def modifier (ended : Bool) (text : String) : Reader (List Node) := do
  let comments ← gap
  require ((← wordHere) == text)
  let own ← leaf (.token text) text.length
  require !(ended && (← mayEnd true))
  require (← look do
    let _ ← lead
    return beginsName (← ahead))
  return comments ++ [own]

/-- Two words taken for one when a line ends behind them. -/
def staticGetLength? (cs : List Char) : Option Nat := do
  let isGap (c : Char) : Bool := c == ' ' || (0x09 ≤ c.toNat && c.toNat ≤ 0x0d)
  let rest ← after? "static".toList cs
  let first := rest.takeWhile isGap
  guard !first.isEmpty
  let rest ← after? "get".toList (rest.drop first.length)
  let tail := rest.takeWhile isGap
  guard (tail.contains '\n')
  let upToBreak := tail.reverse.dropWhile (· != '\n')
  return 9 + first.length + upToBreak.length

/-- The word `static`, or the two words `static get` before a line break. -/
def staticWord (ended : Bool) : Reader (List Node) := do
  (do
    let comments ← gap
    match staticGetLength? (← ahead) with
    | some n => return comments ++ [← leaf (.token "static get") n]
    | none => failure) <|> modifier ended "static"

/-- What may stand before the name of a method. -/
def modifiers (ended : Bool) : Reader (List Node) := do
  let first ← optionally (staticWord ended)
  let second ← optionally (modifier ended "async")
  let third ← optionally (modifier ended "get" <|> modifier ended "set" <|> token "*")
  return first ++ second ++ third

/-- What a decorator names. -/
def decoratorTarget : (limit : Nat) → Cursor → Node → Reader Node
  | 0, _, n => pure n
  | k + 1, a, n => do
    (do
      let dot ← token "."
      let name ← part .property (anyWord .propertyIdentifier)
      let m ← nodeSince a .memberExpression (n.as .receiver :: dot ++ name)
      decoratorTarget k a m) <|>
    (do
      let comments ← gap
      let args ← arguments g
      nodeSince a .callExpression (n.as .callee :: comments ++ [args.as .arguments])) <|>
    pure n

/-- A decorator. -/
def decorator : Reader Node :=
  node .decorator do
    let sign ← here "@"
    let comments ← lead
    let a ← get
    let n ← identifier
    return sign :: comments ++ [← decoratorTarget g g.limit a n]

/-- Decorators before a declaration. -/
def decorators : Reader (List Node) :=
  many (sub (decorator g)) g.limit

/-- What stands before the name of a member, and the name. -/
def memberHead (ended : Bool) : Reader (List Node × Node) := do
  let marks ← decorators g
  let mods ← modifiers ended
  let comments ← lead
  return (marks ++ mods ++ comments, ← propertyName g)

/-- Parameters begin behind the name of a member. -/
def beginsParameters : Reader Bool :=
  look do
    let _ ← gap
    return (← ahead).head? == some '('

/-- A method from its parameters on. -/
def methodRest (a : Cursor) (before : List Node) (name : Node) : Reader Node := do
  let comments ← gap
  let params ← formalParameters g
  let body ← part .body (block g)
  nodeSince a .methodDefinition
    (before ++ name.as .name :: comments ++ params.as .parameters :: body)

/-- The word `async` stands here and makes the function behind it asynchronous. -/
def marksFunction (place : Place) : Reader Bool :=
  look do
    let _ ← word "async"
    require (← goesOn place)
    return (← upcomingWord) == "function"

/-- A function or a class that has a name begins here. -/
def beginsNamed (keyword : String) : Reader Bool :=
  look do
    let _ ← optionally (word "async")
    let _ ← word keyword
    let _ ← optionally (token "*")
    return !(["", "extends"].contains (← upcomingWord))

/-- A function behind the word that makes it asynchronous: named when `named`. -/
def functionParts (named : Bool) : Reader (Bool × List Node) := do
  let async ← optionally (word "async")
  let keyword ← word "function"
  let star ← optionally (token "*")
  let name ← if named then part .name identifier else optionally (part .name identifier)
  let comments ← lead
  let params ← formalParameters g
  let body ← part .body (block g)
  return (!star.isEmpty,
    async ++ keyword ++ star ++ name ++ comments ++ params.as .parameters :: body)

/-- A function with or without a name. -/
def functionExpression : Reader Node := do
  let a ← get
  let (generator, children) ← functionParts g false
  nodeSince a (if generator then .generatorFunction else .functionExpression) children

/-- A block that runs when its class is made. -/
def staticBlock : Reader Node :=
  node .classStaticBlock do
    let keyword ← word "static"
    return keyword ++ (← part .body (block g))

/-- What may stand before the name of a field. -/
def isFieldMark (n : Node) : Bool :=
  n.isNamed || n.kind == .token "static" || n.kind == .token "static get"

/-- A method or a field of a class. -/
def methodOrField : Reader (List Node) := do
  let a ← get
  let (before, name) ← memberHead g true
  let ended ← mayEnd true
  if !ended && (← beginsParameters) then return [← methodRest g a before name]
  require (before.all isFieldMark)
  let value ← if ended then pure [] else optionally do
    let sign ← token "="
    return sign ++ (← part .value (g.expression .loose))
  let field ← nodeSince a .fieldDefinition (before ++ name.as .property :: value)
  return field :: (← semicolon value.isEmpty)

/-- A member of a class, or a semicolon between two. -/
def classMember : Reader (List Node) := do
  let comments ← lead
  match ← ahead with
  | ';' :: _ => return comments ++ [← here ";"]
  | '}' :: _ => failure
  | _ => (do return comments ++ [← staticBlock g]) <|> do return comments ++ (← methodOrField g)

/-- The body of a class. -/
def classBody : Reader Node :=
  node .classBody do
    let opening ← here "\x7b"
    let members ← many (classMember g) g.limit
    let comments ← lead
    return opening :: members ++ comments ++ (← token "\x7d")

/-- The base of a class. -/
def heritage : Reader Node :=
  node .classHeritage do
    let keyword ← word "extends"
    return keyword ++ (← sub (g.expression .enclosed))

/-- A class from its decorators on: named when `named`. -/
def classParts (named : Bool) : Reader (List Node) := do
  let marks ← decorators g
  let keyword ← word "class"
  let own : Reader (List Node) := do
    require ((← upcomingWord) != "extends")
    part .name identifier
  let name ← if named then own else optionally own
  let base ← optionally (sub (heritage g))
  return marks ++ keyword ++ name ++ base ++ (← part .body (classBody g))

/-- A class with or without a name. -/
def classExpression : Reader Node :=
  node .classExpression (classParts g false)

end Ambient.Source
