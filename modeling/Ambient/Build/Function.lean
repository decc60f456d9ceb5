import Ambient.Build.Basic

/-!
# Functions

A function gets its parameters from the source and their types from the documentation.  Whether it
has a result is read off its body: a return with a value, not inside another function or class, or
a body that is an expression.
-/

namespace Ambient

namespace Node

/-- Constructs whose returns are their own. -/
def opensScope (k : Kind) : Bool :=
  [.functionExpression, .functionDeclaration, .generatorFunction, .generatorFunctionDeclaration,
   .arrowFunction, .methodDefinition, .classExpression, .classDeclaration].contains k

mutual

/-- A return with a value stands here or below, outside inner scopes. -/
def returnsValue : Node → Bool
  | ⟨k, _, _, _, _, cs⟩ =>
    if opensScope k then false
    else if k == .returnStatement then cs.any fun c => c.isNamed && !c.isComment
    else anyReturnsValue cs

/-- The same of one of several nodes, mere tokens aside. -/
def anyReturnsValue : List Node → Bool
  | [] => false
  | c :: cs => (c.isNamed && returnsValue c) || anyReturnsValue cs

end

/-- The function gives a value. -/
def givesValue (n : Node) : Bool :=
  match n.child? .body with
  | none => false
  | some body => body.kind != .statementBlock || anyReturnsValue body.children

/-- The nodes of a function's parameters. -/
def parameterNodes (n : Node) : List Node :=
  match n.child? .parameters with
  | some ps => ps.codeChildren
  | none => (n.child? .parameter).toList

end Node

namespace Build

/-- A parameter as the source has it; a pattern has no name of its own. -/
def sourceParameter (ctx : Context) (n : Node) : Build Parameter :=
  let ctx := ctx.enter n
  match n.kind with
  | .identifier => return { name := n.text }
  | .objectPattern => return { name := "" }
  | .arrayPattern => return { name := "" }
  | .assignmentPattern =>
    match h : n.child? .left with
    | some c => do
      have := Node.sizeOf_lt_of_mem_children (Node.mem_children_of_child? h)
      let p ← sourceParameter ctx c
      return { p with optional := true }
    | none => unhandled ctx n
  | .restPattern =>
    match h : n.codeChildren with
    | c :: _ => do
      have := Node.sizeOf_lt_of_mem_children
        (Node.mem_children_of_codeChildren (n := n) (c := c) (by simp [h]))
      let p ← sourceParameter ctx c
      return { p with rest := true }
    | [] => unhandled ctx n
  | _ => unhandled ctx n
termination_by sizeOf n

/-- The diagnostic of an undocumented parameter. -/
def untypedParameter (name : String) : String :=
  "Parameter \"" ++ name ++ "\" type is not specified"

/-- The diagnostic of an undocumented result. -/
def untypedResult : String :=
  "Return type is not specified"

/-- The name of a parameter: its own, or that of the documented parameter at its position. -/
def parameterName (positional : List String) (index : Nat) (own : String) : String :=
  if own.isEmpty then positional.getD index ("arg" ++ toString index) else own

/-- The names of the documented parameters, those of their members aside. -/
def positionalNames (doc : Doc.Comment) : List String :=
  (doc.find "param").filterMap fun t => t.name.filter fun n => !Text.hasChar '.' n

/-- A parameter with what its tag says; the diagnostic when the tag has no type. -/
def documented (doc : Doc.Comment) (p : Parameter) :
    Except TypeRef.Fault (Parameter × List String) :=
  let tag := doc.params.get? p.name
  let p := match tag with
    | some t => { p with description := t.description, optional := p.optional || t.optional }
    | none => p
  match tag.bind (·.type) with
  | some e => do
    let types ← e.expand
    return ({ p with types, optional := p.optional || e.isOptional }, [])
  | none => return ({ p with types := [TypeRef.any] }, [untypedParameter p.name])

/-- The parameters of a function from a position on, and their diagnostics. -/
def parametersFrom (ctx : Context) (doc : Doc.Comment) :
    (index : Nat) → List Node → Build (List Parameter × List String)
  | _, [] => return ([], [])
  | index, n :: ns => do
    let p ← sourceParameter ctx n
    let name := parameterName (positionalNames doc) index p.name
    let (p, own) ← ofTypes (documented doc { p with name })
    let (ps, others) ← parametersFrom ctx doc (index + 1) ns
    return (p :: ps, own ++ others)

/-- The result of a function, and its diagnostic. -/
def resultOf (doc : Doc.Comment) (n : Node) : Except TypeRef.Fault (List TypeRef × List String) :=
  if n.givesValue then
    match (doc.first? "return").bind (·.type) with
    | some e => do return (← e.expand, [])
    | none => return ([TypeRef.any], [untypedResult])
  else return ([TypeRef.plain "void"], [])

/-- A function with the given documentation. -/
def callableOf (ctx : Context) (doc : Doc.Comment) (n : Node) : Build Callable := do
  let (params, untyped) ← parametersFrom ctx doc 0 n.parameterNodes
  let (result, missing) ← ofTypes (resultOf doc n)
  return {
    header := { description := doc.description, diagnostics := untyped ++ missing }
    params
    result }

/-- The description of a class: its own tag's, else that of the comment. -/
def classDescription (doc : Doc.Comment) : String :=
  ((doc.first? "classdesc").bind (·.description)).getD doc.description

/-- The class whose constructor a function is.  The class takes the export flag, and the
description unless it has one of its own. -/
def classOf (fn : Callable) (description : String) (base : Option String) : Decl :=
  let own := if description = fn.header.description then "" else fn.header.description
  .classDef { exported := fn.header.exported, description }
    (some { fn with header := { fn.header with exported := false, description := own } }) [] base

/-- A function as a declaration; documented as a class, it is one. -/
def functionDecl (ctx : Context) (n : Node) : Build Decl := do
  let doc ← documentation ctx
  let fn ← callableOf ctx doc n
  if doc.has "class" || doc.has "augments" then
    return classOf fn (classDescription doc) ((doc.first? "augments").bind (·.name))
  else return .function fn

/-- The words before the name of a method. -/
def modifierWords (n : Node) : List String :=
  n.children.flatMap fun c =>
    match c.kind with
    | .token text => (Text.piecesOf (· == ' ') text.toList).map String.ofList
    | _ => []

/-- The name of a property: the inside of a string, the text of anything else. -/
def nameText (n : Node) : String :=
  if n.kind == .string then n.unquoted else n.text

/-- Adds a method to the members: a getter is a variable, and so is a setter unless the name is
taken. -/
def addMethod (ctx : Context) (members : Table Decl) (n : Node) : Build (Table Decl) := do
  match n.child? .name with
  | none => unhandled ctx n
  | some nameNode =>
    if nameNode.kind == .privatePropertyIdentifier || nameNode.kind == .computedPropertyName then
      return members
    let name := nameText nameNode
    let words := modifierWords n
    let fn ← callableOf ctx (← documentation ctx) n
    if words.contains "get" then return members.set name (.binding fn.header fn.result "var")
    else if words.contains "set" then
      if members.has name then return members
      else
        let types := (fn.params.head?.map (·.types)).getD [TypeRef.any]
        return members.set name (.binding fn.header types "var")
    else return members.set name (.function { fn with isStatic := words.contains "static" })

end Build

end Ambient
