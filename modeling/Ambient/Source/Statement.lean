import Ambient.Source.Element

/-!
# Statements

Each statement is recognised by its first word or character; everything else is an expression, a
label, or, after an opening brace, a block or an object.
-/

namespace Ambient.Source

open Reader Text

variable (g : Grammar)

/-! ### Declarations -/

/-- The left side of a declaration: a name or a pattern. -/
def bindingTarget : Reader Node := do
  match ← ahead with
  | '{' :: _ =>
    match (← object g).toPattern? with
    | some n => pure n
    | none => failure
  | '[' :: _ =>
    match (← array g).toPattern? with
    | some n => pure n
    | none => failure
  | _ => identifier

/-- A declared name with its value; says whether the value is missing. -/
def declarator : Reader (Node × Bool) := do
  let a ← get
  let target ← bindingTarget g
  let value ← optionally do
    require !(← mayEnd true)
    let sign ← token "="
    return sign ++ (← part .value (g.expression .loose))
  return (← nodeSince a .variableDeclarator (target.as .name :: value), value.isEmpty)

/-- Declared names separated by commas; says whether the last has no value. -/
def declarators : (limit : Nat) → Reader (List Node × Bool)
  | 0 => failure
  | n + 1 => do
    let comments ← lead
    let (d, bare) ← declarator g
    (do
      require !(← mayEnd bare)
      let comma ← token ","
      let (others, bare) ← declarators n
      return (comments ++ d :: comma ++ others, bare)) <|> return (comments ++ [d], bare)

/-- A declaration behind its keyword. -/
def declared (keyword : List Node) : Reader (List Node) := do
  let (names, bare) ← declarators g g.limit
  return keyword ++ names ++ (← semicolon bare)

/-- A declaration of variables. -/
def variableDeclaration : Reader Node :=
  node .variableDeclaration do declared g [← firstWord "var"]

/-- What is declared begins here.  The words that stand between the parts of an expression do not
begin it, nor does `of` in the head of a loop. -/
def beginsBinding (loop : Bool) (cs : List Char) : Bool :=
  match cs with
  | '{' :: _ => true
  | '[' :: _ => true
  | _ => !(["", "in", "instanceof"].contains (wordAt cs) || (loop && wordAt cs == "of"))

/-- Nothing, where a name or a pattern follows in the same statement. -/
def bindingAhead (loop : Bool) : Reader Unit := do
  require (← goesOn (if loop then .enclosed else .loose))
  require (← look do
    let _ ← lead
    return beginsBinding loop (← ahead))

/-- A word that declares only when a name or a pattern follows it in the same statement. -/
def softKeyword (loop : Bool) (text : String) : Reader (List Node) := do
  let keyword ← word text
  bindingAhead loop
  return keyword

/-- A declaration that is bound to its block, or to a loop. -/
def lexicalDeclaration (loop : Bool) : Reader Node :=
  node .lexicalDeclaration do
    let keyword ← firstWord "const" <|> do
      let keyword ← firstWord "let"
      bindingAhead loop
      return keyword
    declared g [keyword]

/-- A declaration of something to be disposed of. -/
def usingDeclaration : Reader Node :=
  node .usingDeclaration do
    let await ← optionally (word "await")
    let keyword ← softKeyword false "using"
    require (← look do
      let _ ← lead
      return wordAt (← ahead) != "")
    declared g (await ++ keyword)

/-- A function with a name. -/
def functionDeclaration : Reader Node := do
  let a ← get
  require ((← wordHere) != "async" || (← marksFunction .loose))
  let (generator, children) ← functionParts g true
  nodeSince a (if generator then .generatorFunctionDeclaration else .functionDeclaration) children

/-- A class with a name. -/
def classDeclaration : Reader Node :=
  node .classDeclaration (classParts g true)

/-- A declaration of any kind. -/
def declaration : Reader Node := do
  match ← wordHere with
  | "var" => variableDeclaration g
  | "let" => lexicalDeclaration g false
  | "const" => lexicalDeclaration g false
  | "function" => functionDeclaration g
  | "async" => functionDeclaration g
  | "class" => classDeclaration g
  | "using" => usingDeclaration g
  | "await" => usingDeclaration g
  | _ =>
    match ← ahead with
    | '@' :: _ => classDeclaration g
    | _ => failure

/-! ### Imports and exports -/

/-- The path behind the word `from`. -/
def fromPart : Reader (List Node) := do
  let keyword ← word "from"
  return keyword ++ (← part .source string)

/-- A name of a module: an identifier, a string, or `default`. -/
def moduleName : Reader Node := do
  if (← wordHere) == "default" then leaf (.token "default") 7
  else identifier <|> string

/-- All names of a module under one name. -/
def namespaceImport : Reader Node :=
  node .namespaceImport do
    let star ← here "*"
    let keyword ← word "as"
    return star :: keyword ++ (← sub identifier)

/-- One imported name. -/
def importSpecifier : Reader Node := do
  (node .importSpecifier do
    let name ← part .name moduleName
    let keyword ← word "as"
    return name ++ keyword ++ (← part .renamed identifier)) <|>
  node .importSpecifier (part .name identifier)

/-- Imported names between braces. -/
def namedImports : Reader Node :=
  node .namedImports do
    let opening ← here "\x7b"
    let names ← commaList importSpecifier "\x7d" g.limit
    require (isDense names)
    return opening :: names ++ (← token "\x7d")

/-- What is imported. -/
def importClause : Reader Node :=
  node .importClause do
    match ← ahead with
    | '*' :: _ => return [← namespaceImport]
    | '{' :: _ => return [← namedImports g]
    | _ =>
      let first ← identifier
      let others ← optionally do
        let comma ← token ","
        return comma ++ (← sub (namespaceImport <|> namedImports g))
      return first :: others

/-- The attributes of an import. -/
def importAttribute : Reader Node :=
  node .importAttribute do
    let keyword ← word "with"
    return keyword ++ (← sub (object g))

/-- An import. -/
def importStatement : Reader Node :=
  node .importStatement do
    let keyword ← word "import"
    let clause ←
      (part .source string) <|> do
        let clause ← sub (importClause g)
        return clause ++ (← fromPart)
    let attributes ← optionally do
      require !(← mayEnd true)
      sub (importAttribute g)
    return keyword ++ clause ++ attributes ++ (← semicolon true)

/-- One exported name. -/
def exportSpecifier : Reader Node :=
  node .exportSpecifier do
    let name ← part .name moduleName
    let other ← optionally do
      let keyword ← word "as"
      return keyword ++ (← part .renamed moduleName)
    return name ++ other

/-- Exported names between braces. -/
def exportClause : Reader Node :=
  node .exportClause do
    let opening ← here "\x7b"
    let names ← commaList exportSpecifier "\x7d" g.limit
    require (isDense names)
    return opening :: names ++ (← token "\x7d")

/-- All names of a module exported under one name. -/
def namespaceExport : Reader Node :=
  node .namespaceExport do
    let star ← here "*"
    let keyword ← word "as"
    return star :: keyword ++ (← sub moduleName)

/-- The names that an export lists, and where they come from. -/
def exportList : Reader (List Node) := do
  let comments ← lead
  match ← ahead with
  | '{' :: _ =>
    let clause ← exportClause g
    let source ← optionally fromPart
    return comments ++ clause :: source ++ (← semicolon true)
  | '*' :: _ =>
    let what ← (do return [← namespaceExport]) <|> (do return [← here "*"])
    let source ← fromPart
    return comments ++ what ++ source ++ (← semicolon true)
  | _ => failure

/-- What is exported by default. -/
def exportDefault : Reader (List Node) := do
  let keyword ← word "default"
  (do return keyword ++ (← part .declaration (declaration g))) <|> do
    let value ← part .value (g.expression .loose)
    return keyword ++ value ++ (← semicolon false)

/-- An export. -/
def exportStatement : Reader Node :=
  node .exportStatement do
    let marks ← decorators g
    let keyword ← word "export"
    let body ←
      (do
        require marks.isEmpty
        exportList g) <|> exportDefault g <|> part .declaration (declaration g)
    return marks ++ keyword ++ body

/-! ### Control -/

/-- An expression in parentheses. -/
def condition : Reader Node :=
  node .parenthesizedExpression do
    let opening ← here "("
    let inner ← sub (expressions g .enclosed)
    return opening :: inner ++ (← token ")")

/-- A choice between two statements. -/
def ifStatement : Reader Node :=
  node .ifStatement do
    let keyword ← word "if"
    let test ← sub (condition g)
    let yes ← sub g.statement
    let no ← optionally do
      require ((← upcomingWord) == "else")
      sub (node .elseClause do
        let keyword ← word "else"
        return keyword ++ (← sub g.statement))
    return keyword ++ test ++ yes ++ no

/-- One case of a switch. -/
def switchCase : Reader Node := do
  (node .switchCase do
    let keyword ← word "case"
    let value ← part .value (expressions g .enclosed)
    let colon ← token ":"
    return keyword ++ value ++ colon ++ (← many (sub g.statement) g.limit)) <|>
  (node .switchDefault do
    let keyword ← word "default"
    let colon ← token ":"
    return keyword ++ colon ++ (← many (sub g.statement) g.limit))

/-- A choice between cases. -/
def switchStatement : Reader Node :=
  node .switchStatement do
    let keyword ← word "switch"
    let value ← part .value (condition g)
    let body ← part .body (node .switchBody do
      let opening ← here "\x7b"
      let cases ← many (sub (switchCase g)) g.limit
      let comments ← lead
      return opening :: cases ++ comments ++ (← token "\x7d"))
    return keyword ++ value ++ body

/-- A statement that does nothing. -/
def emptyStatement : Reader Node :=
  node .emptyStatement do return [← here ";"]

/-- The head of a loop over the members of a value. -/
def forInHead : Reader (List Node) := do
  let opening ← token "("
  let kind : Reader (List Node) := word "var" <|> word "const" <|> softKeyword true "let" <|>
    softKeyword true "using"
  let left ←
    (do
      let keyword ← kind
      let name ← part .left (bindingTarget g)
      let value ← optionally do
        let sign ← token "="
        return sign ++ (← part .value (g.operand .enclosed))
      return keyword ++ name ++ value) <|>
    (do
      let comments ← lead
      let a ← get
      let n ← suffixes g .enclosed true a g.limit (← primary g .enclosed)
      require n.isAssignable
      match n.toTarget? with
      | some t => return comments ++ [t.as .left]
      | none => failure)
  let operator ← word "in" <|> word "of"
  let right ← part .right (expressions g .enclosed)
  return opening ++ left ++ operator ++ right ++ (← token ")")

/-- The head of a loop with a counter. -/
def forHead : Reader (List Node) := do
  let opening ← token "("
  let first ←
    sub (variableDeclaration g <|> lexicalDeclaration g true <|> emptyStatement) <|> do
      let n ← sub (expressions g .enclosed)
      return n ++ (← token ";")
  let second ←
    sub emptyStatement <|> do
      let n ← sub (expressions g .enclosed)
      return n ++ (← token ";")
  let third ← optionally (sub (expressions g .enclosed))
  return opening ++ first ++ second ++ third ++ (← token ")")

/-- A loop with a head. -/
def forStatement : Reader Node := do
  (node .forInStatement do
    let keyword ← word "for"
    let await ← optionally (word "await")
    let head ← forInHead g
    return keyword ++ await ++ head ++ (← part .body g.statement)) <|>
  (node .forStatement do
    let keyword ← word "for"
    let head ← forHead g
    return keyword ++ head ++ (← part .body g.statement))

/-- A loop with a test before each round. -/
def whileStatement : Reader Node :=
  node .whileStatement do
    let keyword ← word "while"
    let test ← sub (condition g)
    return keyword ++ test ++ (← part .body g.statement)

/-- A loop with a test after each round. -/
def doStatement : Reader Node :=
  node .doStatement do
    let keyword ← word "do"
    let body ← part .body g.statement
    let closing ← word "while"
    let test ← sub (condition g)
    return keyword ++ body ++ closing ++ test ++ (← optionally (semicolon true))

/-- Statements whose failure is handled. -/
def tryStatement : Reader Node :=
  node .tryStatement do
    let keyword ← word "try"
    let body ← part .body (block g)
    let handler ← optionally do
      require ((← upcomingWord) == "catch")
      sub (node .catchClause do
        let keyword ← word "catch"
        let parameter ← optionally do
          let opening ← token "("
          let name ← part .parameter (bindingTarget g)
          return opening ++ name ++ (← token ")")
        return keyword ++ parameter ++ (← part .body (block g)))
    let finalizer ← optionally do
      require ((← upcomingWord) == "finally")
      sub (node .finallyClause do
        let keyword ← word "finally"
        return keyword ++ (← part .body (block g)))
    return keyword ++ body ++ handler ++ finalizer

/-- A statement with the members of an object in scope. -/
def withStatement : Reader Node :=
  node .withStatement do
    let keyword ← word "with"
    let value ← sub (condition g)
    return keyword ++ value ++ (← part .body g.statement)

/-- A jump, perhaps to a label. -/
def jump (k : Kind) (text : String) : Reader Node :=
  node k do
    let keyword ← word text
    if ← mayEnd true then return keyword
    let label ← optionally (sub (nameWord .statementIdentifier))
    return keyword ++ label ++ (← semicolon true)

/-- A statement of one word. -/
def debuggerStatement : Reader Node :=
  node .debuggerStatement do
    let keyword ← word "debugger"
    return keyword ++ (← semicolon true)

/-- A return, perhaps of a value. -/
def returnStatement : Reader Node :=
  node .returnStatement do
    let keyword ← word "return"
    (do return keyword ++ (← semicolon true)) <|> do
      let value ← sub (expressions g .loose)
      return keyword ++ value ++ (← semicolon false)

/-- A throw of a value. -/
def throwStatement : Reader Node :=
  node .throwStatement do
    let keyword ← word "throw"
    let value ← sub (expressions g .loose)
    return keyword ++ value ++ (← semicolon false)

/-- An expression as a statement. -/
def expressionStatement : Reader Node :=
  node .expressionStatement do
    let value ← expressions g .loose
    return value :: (← semicolon false)

/-- A statement with a label. -/
def labeledStatement : Reader Node :=
  node .labeledStatement do
    require !(openers.contains (← wordHere))
    let label ← nameWord .statementIdentifier
    let colon ← token ":"
    return label :: colon ++ (← part .body g.statement)

/-- What begins with a brace.  It is a block when a word follows that begins a statement; else it
is an object when it reads as one and begins with a key and a colon, a block when it reads as one,
and any other object. -/
def braced : Reader Node := do
  let opened ← look do
    let _ ← here "\x7b"
    let _ ← lead
    return openers.contains (← wordHere)
  let keyed ← look do
    let _ ← here "\x7b"
    let _ ← lead
    require !(reserved.contains (← wordHere))
    let _ ← propertyName g
    upcoming ":"
  if opened then block g
  else if keyed then expressionStatement g <|> block g
  else block g <|> expressionStatement g

/-- A statement of any kind. -/
def statement : Reader Node := do
  let cs ← ahead
  match cs with
  | '{' :: _ => braced g
  | ';' :: _ => emptyStatement
  | '@' :: _ => exportStatement g <|> classDeclaration g <|> expressionStatement g
  | _ =>
    match wordAt cs with
    | "import" => importStatement g <|> expressionStatement g
    | "export" => exportStatement g
    | "if" => ifStatement g
    | "switch" => switchStatement g
    | "for" => forStatement g
    | "while" => whileStatement g
    | "do" => doStatement g
    | "try" => tryStatement g
    | "with" => withStatement g
    | "break" => jump .breakStatement "break"
    | "continue" => jump .continueStatement "continue"
    | "return" => returnStatement g
    | "throw" => throwStatement g
    | "debugger" => debuggerStatement
    | "function" => do
      if ← beginsNamed "function" then functionDeclaration g else expressionStatement g
    | "async" => do
      if (← marksFunction .loose) && (← beginsNamed "function") then functionDeclaration g
      else labeledStatement g <|> expressionStatement g
    | "class" => do
      if ← beginsNamed "class" then classDeclaration g else expressionStatement g
    | _ => declaration g <|> labeledStatement g <|> expressionStatement g

end Ambient.Source
