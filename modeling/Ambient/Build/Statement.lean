import Ambient.Build.Value
import Ambient.Source.Kind
import Ambient.Text.Blank
import Ambient.TypeExpr.Reader

/-!
# Statements

What each statement of a source adds to the module.  Declarations register the names they bind;
exports mark or register names; imports register names of other modules; comments register the
types they define.
-/

namespace Ambient.Build

/-- Visits code nodes in order. -/
def eachCode (nodes : List Node) (f : Node → Build Unit) : Build Unit :=
  nodes.forM fun n => if n.isNamed && !n.isComment then f n else pure ()

/-- Visits nodes of one kind; any other kind is not handled. -/
def onlyKind {α : Type} (ctx : Context) (k : Kind) (f : Context → Node → Build α) (n : Node) :
    Build α :=
  let inner := ctx.enter n
  if n.kind == k then f inner n else unhandled inner n

/-! ### Comments -/

/-- Registers the type that a tag defines. -/
def addTypedef (doc : Doc.Comment) (tag : Doc.Tag) : Build Unit :=
  match tag.name with
  | none => notify [.namelessTypedef tag.rawType]
  | some name => do
    let expr := tag.type.or ((doc.first? "type").bind (·.type))
    let types ← match expr with
      | some e => ofTypes e.expand
      | none => pure [TypeRef.plain "object"]
    register name (.typedef { description := doc.description } types)

/-- A comment that stands for itself: it may describe the module and define types. -/
def commentStatement (n : Node) : Build Unit := do
  if Doc.isBlock n.text && Doc.isDetached n.text then
    let doc ← readComment n
    if Doc.isModuleComment n.text then
      modifyModule fun m =>
        if m.description.isEmpty then { m with description := doc.description } else m
    (doc.find "typedef").forM (addTypedef doc)

/-! ### Declarations -/

/-- The word that opens a declaration of variables: the text of its first part. -/
def keywordOf (n : Node) : String :=
  (n.children.head?.map Node.text).getD "var"

/-- A value that is written out: a string, a number, perhaps negative, or a truth value. -/
def isLiteral (n : Node) : Bool :=
  if n.kind == .unaryExpression then
    (n.child? .operator).any (·.kind == .token "-") && (n.child? .operand).any (·.kind == .number)
  else [.string, .number, .trueValue, .falseValue].contains n.kind

/-- The declaration of a plain name. -/
def bindingValue (ctx : Context) (keyword : String) : Option Node → Build Decl
  | none => variableOf ctx [TypeRef.any] keyword
  | some v => do
    let doc ← documentation ctx
    if keyword = "const" && isLiteral v && !doc.has "type" then
      return .constant { description := doc.description } (some v.text)
    else
      match ← value ctx v with
      | .binding h ts _ => return .binding h ts keyword
      | d => return d

/-- Registers a name bound by a pattern: an import when the pattern takes a module apart. -/
def bindMember (ctx : Context) (path : Option String) (own imported : String) :
    Build (List String) := do
  let d ← match path with
    | some path => pure (Decl.imported {} path (some imported))
    | none => variableOf ctx [TypeRef.any] "var"
  register own d
  return [own]

/-- The names that one member of a pattern binds. -/
def patternMember (ctx : Context) (path : Option String) (n : Node) : Build (List String) := do
  let inner := ctx.enter n
  match n.kind with
  | .shorthandPropertyIdentifierPattern => bindMember inner path n.text n.text
  | .pairPattern =>
    match n.child? .value, n.child? .key with
    | some target, some key =>
      onlyKind inner .identifier (fun ctx t => bindMember ctx path t.text key.text) target
    | _, _ => unhandled inner n
  | _ => unhandled inner n

/-- The names that a pattern binds. -/
def patternNames (ctx : Context) (path : Option String) : List Node → Build (List String)
  | [] => return []
  | n :: ns => do
    let first ← patternMember ctx path n
    let others ← patternNames ctx path ns
    return first ++ others

/-- The names that a declarator binds. -/
def declaratorNames (keyword : String) (ctx : Context) (n : Node) : Build (List String) := do
  match n.child? .name with
  | none => unhandled ctx n
  | some target =>
    let inner := ctx.enter target
    match target.kind with
    | .identifier =>
      let d ← bindingValue inner keyword (n.child? .value)
      register target.text d
      return [target.text]
    | .objectPattern =>
      patternNames inner ((n.child? .value).bind (loadedModule? ctx)) target.codeChildren
    | _ => unhandled inner target

/-- The names that several declarators bind. -/
def declaratorsNames (keyword : String) (ctx : Context) : List Node → Build (List String)
  | [] => return []
  | n :: ns => do
    let first ← onlyKind ctx .variableDeclarator (declaratorNames keyword) n
    let others ← declaratorsNames keyword ctx ns
    return first ++ others

/-- Registers what a named construct stands for. -/
def registerNamed (ctx : Context) (n : Node) (decl : Build Decl) : Build (List String) := do
  match n.child? .name with
  | none => unhandled ctx n
  | some name =>
    let d ← decl
    register name.text d
    return [name.text]

/-- The names that a declaration binds, none when the node is no declaration; the context is the
one inside it. -/
def declarationNames? (ctx : Context) (n : Node) : Option (Build (List String)) :=
  match n.kind with
  | .variableDeclaration | .lexicalDeclaration =>
    some (declaratorsNames (keywordOf n) ctx n.codeChildren)
  | .functionDeclaration | .generatorFunctionDeclaration =>
    some (registerNamed ctx n (functionDecl ctx n))
  | .classDeclaration => some (registerNamed ctx n (classValue ctx n))
  | _ => none

/-- The names that an exported declaration binds. -/
def declarationNames (ctx : Context) (n : Node) : Build (List String) :=
  let inner := ctx.enter n
  (declarationNames? inner n).getD (unhandled inner n)

/-! ### Exports and imports -/

/-- A default export: the name of a declaration, or a value. -/
def exportDefault (ctx : Context) (n : Node) : Build Unit := do
  let d ← match n.child? .declaration, n.child? .value with
    | some d, _ => do
      match ← declarationNames ctx d with
      | name :: _ => pure (Decl.aliasOf {} name)
      | [] => throw .nothingDeclared
    | none, some v => value ctx v
    | none, none => unhandled ctx n
  register "default" (d.setExported true)

/-- One exported name: of another module, of an item that is marked where it stands, or an alias. -/
def exportSpecifier (path : Option String) (n : Node) : Build Unit := do
  let name := ((n.child? .name).map (·.text)).getD ""
  let exported := ((n.child? .renamed).map (·.text)).getD name
  match path with
  | some path => register exported (.imported { exported := true } path (some name))
  | none =>
    if exported = name && ((← item? name).any fun d => !d.isAlias) then
      modifyModule (·.markExported name)
    else register exported (.aliasOf { exported := true } name)

/-- All names of a module exported under one name. -/
def exportNamespace (path : Option String) (n : Node) : Build Unit :=
  let text := (n.codeChildren.head?.map (·.text)).getD ""
  let name := String.ofList (Text.trimEnds TypeExpr.isQuote text.toList)
  register name (.imported { exported := true } (path.getD "") none)

/-- The name under which all names of a module are exported again. -/
def wildcardName (path : String) : String :=
  "*" ++ path

/-- A clause of an export. -/
def exportClause (ctx : Context) (path : Option String) (n : Node) : Build Unit := do
  let inner := ctx.enter n
  match n.kind with
  | .exportClause =>
    eachCode n.children (onlyKind inner .exportSpecifier fun _ s => exportSpecifier path s)
  | .namespaceExport => exportNamespace path n
  | .string => return ()
  | _ => unhandled inner n

/-- The clauses of an export list; without any, all names of the module are exported again. -/
def exportList (ctx : Context) (n : Node) : Build Unit := do
  let path := (n.child? .source).map (·.unquoted)
  let clauses := n.codeChildren.filter (·.kind != .decorator)
  clauses.forM (exportClause ctx path)
  match path with
  | some path =>
    if clauses.all fun c => c.kind != .exportClause && c.kind != .namespaceExport then
      register (wildcardName path) (.imported { exported := true } path none)
  | none => return ()

/-- An export. -/
def exportStatement (ctx : Context) (n : Node) : Build Unit := do
  if n.children.any (·.kind == .token "default") then exportDefault ctx n
  else
    match n.child? .declaration with
    | some d =>
      let names ← declarationNames ctx d
      names.forM fun name => modifyModule (·.markExported name)
    | none => exportList ctx n

/-- One imported name. -/
def importSpecifier (path : String) (n : Node) : Build Unit :=
  let name := ((n.child? .name).map (·.text)).getD ""
  let own := ((n.child? .renamed).map (·.text)).getD name
  register own (.imported {} path (some name))

/-- A clause of an import. -/
def importClause (ctx : Context) (path : String) (n : Node) : Build Unit := do
  let inner := ctx.enter n
  match n.kind with
  | .identifier => register n.text (.imported {} path (some "default"))
  | .namespaceImport =>
    register ((n.codeChildren.head?.map (·.text)).getD "") (.imported {} path none)
  | .namedImports =>
    eachCode n.children (onlyKind inner .importSpecifier fun _ s => importSpecifier path s)
  | _ => unhandled inner n

/-- An import. -/
def importStatement (ctx : Context) (n : Node) : Build Unit := do
  let path := ((n.child? .source).map (·.unquoted)).getD ""
  match n.childOfKind? .importClause with
  | none => notify [.bareImportSkipped path]
  | some clause => eachCode clause.children (importClause ctx path)

/-! ### Statements -/

/-- An expression that stands as a statement. -/
def expressionStatement (ctx : Context) (n : Node) : Build Unit := do
  match n.codeChildren.head? with
  | none => return ()
  | some e =>
    let inner := ctx.enter e
    match e.kind with
    | .assignmentExpression => assign inner e
    | .string => return ()
    | .callExpression =>
      notify [.callSkipped (((e.child? .callee).map (·.text)).getD "") e.line]
    | _ => unhandled inner e

/-- A statement of the source. -/
def statement (ctx : Context) (n : Node) : Build Unit := do
  let inner := ctx.enter n
  match n.kind with
  | .comment => commentStatement n
  | .expressionStatement => expressionStatement inner n
  | .exportStatement => exportStatement inner n
  | .importStatement => importStatement inner n
  | .emptyStatement => return ()
  | .hashBangLine => return ()
  | _ =>
    match declarationNames? inner n with
    | some names => do
      let _ ← names
    | none => unhandled inner n

/-- The statements of a source, from the given siblings on. -/
def statements (ctx : Context) (before : List Node) : List Node → Build Unit
  | [] => return ()
  | n :: rest => do
    if n.isNamed then statement (ctx.behind before) n
    statements ctx (n :: before) rest

end Ambient.Build
