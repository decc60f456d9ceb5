import Ambient.Source.Grammar
import Ambient.Source.Operator

/-!
# Expressions

An operand is a primary expression with its suffixes, or one under a prefix operator; operands are
joined by binary operators according to their precedence; a conditional stands above them.  An
assignment is an operand: its left side is the operand just read, its right side a whole
expression.
-/

namespace Ambient.Source

open Reader Text

variable (g : Grammar)

/-! ### Primary expressions -/

/-- The length of the characters of a template up to an escape, a substitution or its end. -/
def templateRun : List Char → Nat
  | [] => 0
  | '`' :: _ => 0
  | '\\' :: _ => 0
  | '$' :: '{' :: _ => 0
  | _ :: cs => templateRun cs + 1

/-- A part of a template. -/
def templatePart : Reader (List Node) := do
  let cs ← ahead
  match templateRun cs with
  | 0 =>
    match escapeLength? cs with
    | some n => return [← leaf .escapeSequence n]
    | none =>
      return [← node .templateSubstitution do
        let opening ← here "$\x7b"
        let inner ← sub (expressions g .enclosed)
        return opening :: inner ++ (← token "\x7d")]
  | n => return [← leaf .stringFragment n]

/-- A template. -/
def template : Reader Node :=
  node .templateString do
    let opening ← here "`"
    let parts ← many (templatePart g) g.limit
    return opening :: parts ++ [← here "`"]

/-- A name that stands for a member of the same name, perhaps with a default. -/
def shorthand : Reader Node := do
  let a ← get
  let name ← nameWord .shorthandPropertyIdentifier
  (do
    let sign ← token "="
    require ((← ahead).head? != some '=' && (← ahead).head? != some '>')
    let value ← part .right (g.expression .enclosed)
    nodeSince a .objectAssignmentPattern
      ((name.recast .shorthandPropertyIdentifierPattern).as .left :: sign ++ value)) <|> pure name

/-- A member of an object that has a key: a method, or a name with a value. -/
def keyedMember : Reader Node := do
  let a ← get
  let (before, name) ← memberHead g false
  if ← beginsParameters then methodRest g a before name
  else
    require before.isEmpty
    let colon ← token ":"
    nodeSince a .pair (name.as .key :: colon ++ (← part .value (g.expression .enclosed)))

/-- An object. -/
def object : Reader Node :=
  node .object do
    let opening ← here "\x7b"
    let members ← commaList (spread g <|> keyedMember g <|> shorthand g) "\x7d" g.limit
    return opening :: members ++ (← token "\x7d")

/-- An array. -/
def array : Reader Node :=
  node .array do
    let opening ← here "["
    let items ← commaList (listItem g) "]" g.limit
    return opening :: items ++ (← token "]")

/-- The body of an arrow function. -/
def arrowBody (place : Place) : Reader (List Node) :=
  part .body do
    match ← ahead with
    | '{' :: _ => block g
    | _ => g.expression place

/-- An arrow and what follows it. -/
def arrowRest (place : Place) : Reader (List Node) := do
  let comments ← continuation place
  let arrow ← here "=>"
  return comments ++ arrow :: (← arrowBody g place)

/-- The expressions between parentheses as one expression; none when there are none, when one is
missing, or when one is spread. -/
def enclosedExpression? (a : Cursor) (ns : List Node) : Option (List Node) :=
  let isCode (n : Node) : Bool := !n.isComment
  let before := ns.takeWhile (!isCode ·)
  let inner := ((ns.dropWhile (!isCode ·)).reverse.dropWhile (!isCode ·)).reverse
  let behind := (ns.reverse.takeWhile (!isCode ·)).reverse
  match inner, inner.getLast? with
  | first :: _, some last =>
    if !isDense inner || last.kind == .token "," || inner.any (·.kind == .spreadElement) then none
    else if (itemsOf inner).length = 1 then some ns
    else some (before ++ nodeAround a .sequenceExpression first last inner :: behind)
  | _, _ => none

/-- What a parenthesis opens: an arrow function or an expression in parentheses. -/
def parenthesized (place : Place) : Reader Node := do
  let a ← get
  let opening ← here "("
  let items ← commaList (listItem g) ")" g.limit
  let closing ← token ")"
  let arrow : Reader Node := do
    let params ← match parameterNodes? items with
      | some ps => nodeSince a .formalParameters (opening :: ps ++ closing)
      | none => failure
    let rest ← arrowRest g place
    nodeSince a .arrowFunction (params.as .parameters :: rest)
  arrow <|> do
    match enclosedExpression? a items with
    | some inner => nodeSince a .parenthesizedExpression (opening :: inner ++ closing)
    | none => failure

/-- An identifier, or an arrow function with it as its only parameter. -/
def nameOrArrow (place : Place) : Reader Node := do
  let a ← get
  let text ← wordHere
  let name ← identifier
  (do
    require (text != "undefined")
    let rest ← arrowRest g place
    nodeSince a .arrowFunction (name.as .parameter :: rest)) <|>
  pure (if text == "undefined" then name.recast .undefinedValue else name)

/-- What the word `async` opens: a function, an arrow function, or a plain name. -/
def asynchronous (place : Place) : Reader Node := do
  let a ← get
  let modified : Reader Node := do
    let keyword ← word "async"
    require (← goesOn place)
    (do
      let name ← part .parameter identifier
      let rest ← arrowRest g place
      nodeSince a .arrowFunction (keyword ++ name ++ rest)) <|>
    (do
      let params ← part .parameters (formalParameters g)
      let rest ← arrowRest g place
      nodeSince a .arrowFunction (keyword ++ params ++ rest))
  let function : Reader Node := do
    require (← marksFunction place)
    functionExpression g
  function <|> modified <|> nameOrArrow g place

/-- A word that is an expression of its own. -/
def wordValue (k : Kind) : Reader Node :=
  anyWord k

/-- A call or a property of the word `import`. -/
def importExpression : Reader Node := do
  let a ← get
  let own ← anyWord .importValue
  (do
    let keyword := { own with kind := Kind.token "import" }
    let dot ← token "."
    let target ← word "meta"
    nodeSince a .metaProperty (keyword :: dot ++ target)) <|> do
    require ((← upcoming "(") || (← upcoming "."))
    return own

/-- A private name that is looked for in an object. -/
def privateOperand : Reader Node := do
  let name ← privateName
  require ((← upcomingWord) == "in")
  return name

/-- A primary expression, `new` aside. -/
def primary (place : Place) : Reader Node := do
  let cs ← ahead
  match cs with
  | '(' :: _ => parenthesized g place
  | '[' :: _ => array g
  | '{' :: _ => object g
  | '"' :: _ => string
  | '\x27' :: _ => string
  | '`' :: _ => template g
  | '/' :: _ => regex
  | '<' :: _ => g.element
  | '@' :: _ => classExpression g
  | '#' :: _ => privateOperand
  | '.' :: _ => number
  | _ =>
    match wordAt cs with
    | "" => number
    | "function" => functionExpression g
    | "class" => classExpression g
    | "async" => asynchronous g place
    | "this" => wordValue .thisValue
    | "super" => wordValue .superValue
    | "true" => wordValue .trueValue
    | "false" => wordValue .falseValue
    | "null" => wordValue .nullValue
    | "import" => importExpression
    | "await" => failure
    | "yield" => failure
    | _ => nameOrArrow g place

/-! ### Suffixes -/

/-- The property behind a dot. -/
def propertyPart : Reader (List Node) :=
  part .property (anyWord .propertyIdentifier <|> privateName)

/-- An index in brackets. -/
def indexPart : Reader (List Node) := do
  let opening ← here "["
  let inner ← part .index (expressions g .enclosed)
  return opening :: inner ++ (← token "]")

/-- One suffix of an expression.  Without `calls`, only those that a constructor's name takes. -/
def suffix (place : Place) (calls : Bool) (a : Cursor) (n : Node) : Reader Node := do
  let comments ← continuation place
  match ← ahead with
  | '.' :: _ =>
    let dot ← here "."
    let property ← propertyPart
    nodeSince a .memberExpression (n.as .receiver :: comments ++ dot :: property)
  | '?' :: '.' :: c :: _ =>
    require !c.isDigit
    let chain ← leaf .optionalChain 2
    (do
      let property ← propertyPart
      nodeSince a .memberExpression (n.as .receiver :: comments ++ chain :: property)) <|>
    (do
      let inner ← lead
      let index ← indexPart g
      nodeSince a .subscriptExpression (n.as .receiver :: comments ++ chain :: inner ++ index)) <|>
    (do
      require calls
      let args ← part .arguments (arguments g)
      nodeSince a .callExpression (n.as .callee :: comments ++ chain :: args))
  | '[' :: _ =>
    let index ← indexPart g
    nodeSince a .subscriptExpression (n.as .receiver :: comments ++ index)
  | '`' :: _ =>
    let text ← template g
    nodeSince a .callExpression (n.as .callee :: comments ++ [text.as .arguments])
  | '(' :: _ =>
    require calls
    let args ← arguments g
    nodeSince a .callExpression (n.as .callee :: comments ++ [args.as .arguments])
  | cs =>
    require calls
    match operatorAt cs with
    | some "++" =>
      let op ← here "++"
      nodeSince a .updateExpression (n.as .operand :: comments ++ [op.as .operator])
    | some "--" =>
      let op ← here "--"
      nodeSince a .updateExpression (n.as .operand :: comments ++ [op.as .operator])
    | _ => failure

/-- All suffixes of an expression. -/
def suffixes (place : Place) (calls : Bool) (a : Cursor) : (limit : Nat) → Node → Reader Node
  | 0, n => pure n
  | k + 1, n => fun c =>
    match suffix g place calls a n c with
    | some (m, d) => suffixes place calls a k m d
    | none => some (n, c)

/-- An object made by a constructor, or the constructor that was called. -/
def newExpression (place : Place) : (limit : Nat) → Reader Node
  | 0 => failure
  | k + 1 => do
    let a ← get
    let keyword ← word "new"
    (do
      let dot ← token "."
      let target ← word "target"
      nodeSince a .metaProperty (keyword ++ dot ++ target)) <|> do
      let comments ← lead
      let b ← get
      let base ←
        if (← wordHere) == "new" then newExpression place k else primary g place
      let ctor ← suffixes g place false b g.limit base
      let called ← look do
        let _ ← continuation place
        return (← ahead).head? == some '('
      let given : Reader (List Node) := do
        let comments ← continuation place
        return comments ++ [(← arguments g).as .arguments]
      let args ← if called then given else pure []
      nodeSince a .newExpression (keyword ++ comments ++ ctor.as .constructor :: args)

/-! ### Operands -/

/-- An assignment to the expression just read. -/
def assignment (place : Place) (a : Cursor) (n : Node) : Reader Node := do
  require n.isAssignable
  let comments ← continuation place
  match operatorAt (← ahead) with
  | some "=" =>
    let target ← match n.toTarget? with
      | some t => pure t
      | none => failure
    let sign ← here "="
    let value ← part .right (g.expression place)
    nodeSince a .assignmentExpression (target.as .left :: comments ++ sign :: value)
  | some op =>
    require (isUpdate op && n.isUpdatable)
    let sign ← here op
    let value ← part .right (g.expression place)
    nodeSince a .augmentedAssignmentExpression
      (n.as .left :: comments ++ sign.as .operator :: value)
  | none => failure

/-- The operand of `yield`, which may be missing. -/
def yieldOperand (place : Place) : Reader (List Node) := do
  optionally do
    require (← goesOn place)
    let star ← optionally (token "*")
    return star ++ (← sub (g.expression place))

/-- An operand of a binary operator. -/
def operand (place : Place) : Reader Node := do
  let a ← get
  let cs ← ahead
  match unaryAt cs with
  | some op =>
    let sign ← leaf (.token op) op.length
    let value ← part .operand (g.operand place)
    nodeSince a .unaryExpression (sign.as .operator :: value)
  | none =>
    match operatorAt cs, wordAt cs with
    | some "++", _ =>
      let sign ← here "++"
      let value ← part .operand (g.operand place)
      nodeSince a .updateExpression (sign.as .operator :: value)
    | some "--", _ =>
      let sign ← here "--"
      let value ← part .operand (g.operand place)
      nodeSince a .updateExpression (sign.as .operator :: value)
    | _, "await" =>
      let keyword ← word "await"
      let value ← sub (g.operand place)
      nodeSince a .awaitExpression (keyword ++ value)
    | _, "yield" =>
      let keyword ← word "yield"
      let value ← yieldOperand g place
      nodeSince a .yieldExpression (keyword ++ value)
    | _, w =>
      let base ← if w == "new" then newExpression g place g.limit else primary g place
      let n ← suffixes g place true a g.limit base
      assignment g place a n <|> pure n

/-- The expression that continues an operand by binary operators of at least a precedence. -/
def climb (place : Place) : (limit : Nat) → (least : Nat) → Cursor → Node → Reader Node
  | 0, _, _, n => pure n
  | k + 1, least, a, n => do
    let step : Reader Node := do
      let comments ← continuation place
      match binaryAt (← ahead) with
      | some (op, p) =>
        require (least ≤ p)
        let sign ← leaf (.token op) op.length
        let inner ← lead
        let b ← get
        let first ← g.operand place
        let right ← climb place k (rightPrecedence op p) b first
        nodeSince a .binaryExpression
          (n.as .left :: comments ++ sign.as .operator :: inner ++ [right.as .right])
      | none => failure
    match ← (do return some (← step)) <|> pure none with
    | some m => climb place k least a m
    | none => pure n

/-- The question mark of a conditional, not of a chain or a default. -/
def isQuestion : List Char → Bool
  | '?' :: '?' :: _ => false
  | '?' :: '.' :: c :: _ => c.isDigit
  | '?' :: _ => true
  | _ => false

/-- An expression, commas aside. -/
def expression (place : Place) : Reader Node := do
  let a ← get
  let first ← g.operand place
  let n ← climb g place g.limit 0 a first
  (do
    let comments ← continuation place
    require (isQuestion (← ahead))
    let mark ← here "?"
    let yes ← sub (g.expression .enclosed)
    let colon ← token ":"
    let no ← sub (g.expression place)
    nodeSince a .ternaryExpression (n :: comments ++ mark :: yes ++ colon ++ no)) <|> pure n

end Ambient.Source
