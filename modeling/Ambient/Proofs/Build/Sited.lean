import Ambient.Build.Statement
import Ambient.Proofs.Build.Site

/-!
# Readers at sites

The readers are handed a comment that was found on the way down.  Here they are handed the site of
what they read, and each looks for its comment on its own: it climbs to the anchor and looks back
from there.  What is read is the same.
-/

namespace Ambient

/-- The context in which the documentation is that of a site. -/
def Context.asking (ctx : Context) (s : Site) : Context :=
  { ctx with comment := s.comment?.map Site.node }

namespace Site

theorem sizeOf_lt_of_mem_children {s c : Site} (hc : c ∈ s.children) :
    sizeOf c.node < sizeOf s.node :=
  Node.sizeOf_lt_of_mem_children (node_mem_children hc)

end Site

namespace Sited

open Build

mutual

/-- The declaration that a value stands for. -/
def value (ctx : Context) (s : Site) : Build Decl := do
  let inner := (ctx.enter s.node).asking s
  match s.node.kind with
  | .functionExpression | .generatorFunction | .arrowFunction => functionDecl inner s.node
  | .classExpression => classValue inner s
  | .object => do
    have := s.node.sizeOf_children_lt
    let doc ← documentation inner
    let members ← objectMembers inner s.children []
    return .object { description := doc.description } members
  | .identifier => aliasValue inner s.node
  | .callExpression => callValue inner s.node
  | .newExpression => newValue inner s.node
  | .assignmentExpression => do
    assign inner s
    match h : s.child? .right with
    | some right =>
      have := Site.sizeOf_lt_of_mem_children (Site.mem_children_of_child? h)
      value inner right
    | none => unhandled inner s.node
  | .parenthesizedExpression =>
    match h : s.codeChildren with
    | c :: _ =>
      have := Site.sizeOf_lt_of_mem_children
        (Site.mem_children_of_codeChildren (s := s) (c := c) (by simp [h]))
      value inner c
    | [] => unhandled inner s.node
  | .string | .templateString => variableNamed inner "string"
  | .number => variableNamed inner "number"
  | .trueValue | .falseValue => variableNamed inner "boolean"
  | .regex => variableNamed inner "RegExp"
  | .array => variableNamed inner "any[]"
  | .nullValue | .undefinedValue | .thisValue | .memberExpression | .subscriptExpression
  | .binaryExpression | .unaryExpression | .ternaryExpression | .awaitExpression
  | .updateExpression => variableNamed inner "any"
  | _ => unhandled inner s.node
termination_by (sizeOf s.node, 1)

/-- Applies an assignment. -/
def assign (ctx : Context) (s : Site) : Build Unit := do
  match s.child? .left, h : s.child? .right with
  | some left, some right =>
    have := Site.sizeOf_lt_of_mem_children (Site.mem_children_of_child? h)
    let path ← chain ctx left.node
    assignTo path s.node.line right.node (value ctx right)
  | _, _ => unhandled ctx s.node
termination_by (sizeOf s.node, 0)

/-- The members of an object, from the given site on. -/
def objectMembers (ctx : Context) (sites : List Site) (members : Table Decl) :
    Build (Table Decl) := do
  match sites with
  | [] => return members
  | s :: rest =>
    let members ←
      if s.node.isNamed && !s.node.isComment then
        let inner := (ctx.enter s.node).asking s
        match s.node.kind with
        | .pair =>
          match s.child? .key, h : s.child? .value with
          | some key, some v => do
            have := Site.sizeOf_lt_of_mem_children (Site.mem_children_of_child? h)
            if key.node.kind == .computedPropertyName then
              notify [.computedSkipped key.node.line]
              pure members
            else
              let d ← value inner v
              pure (members.set (nameText key.node) d)
          | _, _ => unhandled inner s.node
        | .shorthandPropertyIdentifier => do
          let d ← aliasValue inner s.node
          pure (members.set s.node.text d)
        | .methodDefinition => addMethod inner members s.node
        | .spreadElement => do
          notify [.spreadSkipped s.node.line]
          pure members
        | _ => unhandled inner s.node
      else pure members
    objectMembers ctx rest members
termination_by (sizeOf (sites.map Site.node), 0)

/-- A class. -/
def classValue (ctx : Context) (s : Site) : Build Decl := do
  let doc ← documentation ctx
  match h : s.child? .body with
  | some body =>
    have := Site.sizeOf_lt_of_mem_children (Site.mem_children_of_child? h)
    have := body.node.sizeOf_children_lt
    let parts ← classMembers ctx body.children {}
    return .classDef { description := classDescription doc } parts.ctor parts.members
      (baseName? s.node)
  | none => unhandled ctx s.node
termination_by (sizeOf s.node, 0)

/-- The members of a class, from the given site on. -/
def classMembers (ctx : Context) (sites : List Site) (parts : ClassParts) :
    Build ClassParts := do
  match sites with
  | [] => return parts
  | s :: rest =>
    let parts ←
      if s.node.isNamed && !s.node.isComment then
        let inner := (ctx.enter s.node).asking s
        match s.node.kind with
        | .methodDefinition => addClassMethod inner parts s.node
        | .fieldDefinition =>
          match s.child? .property with
          | some property =>
            if property.node.kind == .privatePropertyIdentifier then pure parts
            else
              match h : s.child? .value with
              | some v => do
                have := Site.sizeOf_lt_of_mem_children (Site.mem_children_of_child? h)
                let d ← value inner v
                pure { parts with members := parts.members.set property.node.text d }
              | none => do
                let d ← variableOf inner [TypeRef.any] "var"
                pure { parts with members := parts.members.set property.node.text d }
          | none => unhandled inner s.node
        | .classStaticBlock => pure parts
        | _ => unhandled inner s.node
      else pure parts
    classMembers ctx rest parts
termination_by (sizeOf (sites.map Site.node), 0)

end

/-! ### Declarations -/

/-- The declaration of a plain name; the context is that of its declarator. -/
def bindingValue (ctx : Context) (keyword : String) : Option Site → Build Decl
  | none => variableOf ctx [TypeRef.any] keyword
  | some v => do
    let doc ← documentation ctx
    if keyword = "const" && isLiteral v.node && !doc.has "type" then
      return .constant { description := doc.description } (some v.node.text)
    else
      match ← value ctx v with
      | .binding h ts _ => return .binding h ts keyword
      | d => return d

/-- The names that a declarator binds. -/
def declaratorNames (keyword : String) (ctx : Context) (s : Site) : Build (List String) := do
  match s.node.child? .name with
  | none => unhandled ctx s.node
  | some target =>
    let inner := (ctx.enter target).asking s
    match target.kind with
    | .identifier =>
      let d ← bindingValue inner keyword (s.child? .value)
      register target.text d
      return [target.text]
    | .objectPattern =>
      patternNames inner ((s.node.child? .value).bind (loadedModule? ctx)) target.codeChildren
    | _ => unhandled inner target

/-- The names that several declarators bind. -/
def declaratorsNames (keyword : String) (ctx : Context) : List Site → Build (List String)
  | [] => return []
  | s :: rest => do
    let inner := (ctx.enter s.node).asking s
    let first ←
      if s.node.kind == .variableDeclarator then declaratorNames keyword inner s
      else unhandled inner s.node
    let others ← declaratorsNames keyword ctx rest
    return first ++ others

/-- The names that a declaration binds, none when the node is no declaration. -/
def declarationNames? (ctx : Context) (s : Site) : Option (Build (List String)) :=
  match s.node.kind with
  | .variableDeclaration | .lexicalDeclaration =>
    some (declaratorsNames (keywordOf s.node) ctx s.codeChildren)
  | .functionDeclaration | .generatorFunctionDeclaration =>
    some (registerNamed ctx s.node (functionDecl ctx s.node))
  | .classDeclaration => some (registerNamed ctx s.node (classValue ctx s))
  | _ => none

/-- The names that an exported declaration binds. -/
def declarationNames (ctx : Context) (s : Site) : Build (List String) :=
  let inner := (ctx.enter s.node).asking s
  (declarationNames? inner s).getD (unhandled inner s.node)

/-! ### Statements -/

/-- A default export. -/
def exportDefault (ctx : Context) (s : Site) : Build Unit := do
  let d ← match s.child? .declaration, s.child? .value with
    | some d, _ => do
      match ← declarationNames ctx d with
      | name :: _ => pure (Decl.aliasOf {} name)
      | [] => throw .nothingDeclared
    | none, some v => value ctx v
    | none, none => unhandled ctx s.node
  register "default" (d.setExported true)

/-- An export. -/
def exportStatement (ctx : Context) (s : Site) : Build Unit := do
  if s.node.children.any (·.kind == .token "default") then exportDefault ctx s
  else
    match s.child? .declaration with
    | some d =>
      let names ← declarationNames ctx d
      names.forM fun name => modifyModule (·.markExported name)
    | none => exportList ctx s.node

/-- An expression that stands as a statement. -/
def expressionStatement (ctx : Context) (s : Site) : Build Unit := do
  match s.codeChildren.head? with
  | none => return ()
  | some e =>
    let inner := (ctx.enter e.node).asking e
    match e.node.kind with
    | .assignmentExpression => assign inner e
    | .string => return ()
    | .callExpression =>
      notify [.callSkipped (((e.node.child? .callee).map (·.text)).getD "") e.node.line]
    | _ => unhandled inner e.node

/-- A statement of the source. -/
def statement (ctx : Context) (s : Site) : Build Unit := do
  let inner := (ctx.enter s.node).asking s
  match s.node.kind with
  | .comment => commentStatement s.node
  | .expressionStatement => expressionStatement inner s
  | .exportStatement => exportStatement inner s
  | .importStatement => importStatement inner s.node
  | .emptyStatement => return ()
  | .hashBangLine => return ()
  | _ =>
    match declarationNames? inner s with
    | some names => do
      let _ ← names
    | none => unhandled inner s.node

/-- The statements of a source, from the given site on. -/
def statements (ctx : Context) : List Site → Build Unit
  | [] => return ()
  | s :: rest => do
    if s.node.isNamed then statement ctx s
    statements ctx rest

end Sited

end Ambient
