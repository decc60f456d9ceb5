import Ambient.Build.Assignment

/-!
# Values

What a declared name stands for, read from its value.  Objects and classes hold values of their
own, and an assignment may stand for a value, so the readers here are mutually recursive on the
size of the node.
-/

namespace Ambient.Build

/-- The module that a call loads. -/
def loadedModule? (ctx : Context) (n : Node) : Option String :=
  if n.kind == .callExpression then
    match n.child? .callee, (n.child? .arguments).map Node.codeChildren with
    | some callee, some [argument] =>
      if callee.kind == .identifier && ctx.resolver.loaders.contains callee.text &&
          argument.kind == .string then some argument.unquoted
      else none
    | _, _ => none
  else none

/-- A call: an import when it loads a module. -/
def callValue (ctx : Context) (n : Node) : Build Decl := do
  match loadedModule? ctx n with
  | some path =>
    let doc ← documentation ctx
    return .imported { description := doc.description } path none
  | none => variableOf ctx [TypeRef.any] "var"

/-- An object made by a constructor has the constructor's type. -/
def newValue (ctx : Context) (n : Node) : Build Decl :=
  match n.child? .constructor with
  | some ctor =>
    if ctor.kind == .identifier then variableNamed ctx ctor.text
    else variableOf ctx [TypeRef.any] "var"
  | none => variableOf ctx [TypeRef.any] "var"

/-- Another name for an item. -/
def aliasValue (ctx : Context) (n : Node) : Build Decl := do
  let doc ← documentation ctx
  return .aliasOf { description := doc.description } n.text

/-- The class that a class extends, when it is given by a name. -/
def baseName? (n : Node) : Option String :=
  ((n.childOfKind? .classHeritage).bind fun h => h.codeChildren.head?).bind fun base =>
    if base.kind == .identifier || base.kind == .memberExpression then some base.text else none

/-- A class under construction. -/
structure ClassParts where
  ctor : Option Callable := none
  members : Table Decl := []

/-- Adds a method to a class; the method named `constructor` is its constructor. -/
def addClassMethod (ctx : Context) (parts : ClassParts) (n : Node) : Build ClassParts := do
  if (n.child? .name).any (·.text == "constructor") then
    let fn ← callableOf ctx (← documentation ctx) n
    return { parts with ctor := some fn }
  else
    let members ← addMethod ctx parts.members n
    return { parts with members }

mutual

/-- The declaration that a value stands for. -/
def value (ctx : Context) (n : Node) : Build Decl := do
  let inner := ctx.enter n
  match n.kind with
  | .functionExpression | .generatorFunction | .arrowFunction => functionDecl inner n
  | .classExpression => classValue inner n
  | .object => do
    have := Node.sizeOf_children_lt n
    let doc ← documentation inner
    let members ← objectMembers inner [] n.children []
    return .object { description := doc.description } members
  | .identifier => aliasValue inner n
  | .callExpression => callValue inner n
  | .newExpression => newValue inner n
  | .assignmentExpression => do
    assign inner n
    match h : n.child? .right with
    | some right =>
      have := Node.sizeOf_lt_of_mem_children (Node.mem_children_of_child? h)
      value inner right
    | none => unhandled inner n
  | .parenthesizedExpression =>
    match h : n.codeChildren with
    | c :: _ =>
      have := Node.sizeOf_lt_of_mem_children
        (Node.mem_children_of_codeChildren (n := n) (c := c) (by simp [h]))
      value inner c
    | [] => unhandled inner n
  | .string | .templateString => variableNamed inner "string"
  | .number => variableNamed inner "number"
  | .trueValue | .falseValue => variableNamed inner "boolean"
  | .regex => variableNamed inner "RegExp"
  | .array => variableNamed inner "any[]"
  | .nullValue | .undefinedValue | .thisValue | .memberExpression | .subscriptExpression
  | .binaryExpression | .unaryExpression | .ternaryExpression | .awaitExpression
  | .updateExpression => variableNamed inner "any"
  | _ => unhandled inner n
termination_by (sizeOf n, 1)

/-- Applies an assignment; the context is the one inside it. -/
def assign (ctx : Context) (n : Node) : Build Unit := do
  match n.child? .left, h : n.child? .right with
  | some left, some right =>
    have := Node.sizeOf_lt_of_mem_children (Node.mem_children_of_child? h)
    let path ← chain ctx left
    assignTo path n.line right (value ctx right)
  | _, _ => unhandled ctx n
termination_by (sizeOf n, 0)

/-- The members of an object, from the given siblings on. -/
def objectMembers (ctx : Context) (before : List Node) (nodes : List Node)
    (members : Table Decl) : Build (Table Decl) := do
  match nodes with
  | [] => return members
  | n :: rest =>
    let members ←
      if n.isNamed && !n.isComment then
        let inner := (ctx.behind before).enter n
        match n.kind with
        | .pair =>
          match n.child? .key, h : n.child? .value with
          | some key, some v => do
            have := Node.sizeOf_lt_of_mem_children (Node.mem_children_of_child? h)
            if key.kind == .computedPropertyName then
              notify [.computedSkipped key.line]
              pure members
            else
              let d ← value inner v
              pure (members.set (nameText key) d)
          | _, _ => unhandled inner n
        | .shorthandPropertyIdentifier => do
          let d ← aliasValue inner n
          pure (members.set n.text d)
        | .methodDefinition => addMethod inner members n
        | .spreadElement => do
          notify [.spreadSkipped n.line]
          pure members
        | _ => unhandled inner n
      else pure members
    objectMembers ctx (n :: before) rest members
termination_by (sizeOf nodes, 0)

/-- A class; the context is the one inside it. -/
def classValue (ctx : Context) (n : Node) : Build Decl := do
  let doc ← documentation ctx
  match h : n.child? .body with
  | some body =>
    have := Node.sizeOf_lt_of_mem_children (Node.mem_children_of_child? h)
    have := Node.sizeOf_children_lt body
    let parts ← classMembers ctx [] body.children {}
    return .classDef { description := classDescription doc } parts.ctor parts.members (baseName? n)
  | none => unhandled ctx n
termination_by (sizeOf n, 0)

/-- The members of a class, from the given siblings on. -/
def classMembers (ctx : Context) (before : List Node) (nodes : List Node)
    (parts : ClassParts) : Build ClassParts := do
  match nodes with
  | [] => return parts
  | n :: rest =>
    let parts ←
      if n.isNamed && !n.isComment then
        let inner := (ctx.behind before).enter n
        match n.kind with
        | .methodDefinition => addClassMethod inner parts n
        | .fieldDefinition =>
          match n.child? .property, h : n.child? .value with
          | some property, v =>
            if property.kind == .privatePropertyIdentifier then pure parts
            else
              match v, h with
              | some v, h => do
                have := Node.sizeOf_lt_of_mem_children (Node.mem_children_of_child? h)
                let d ← value inner v
                pure { parts with members := parts.members.set property.text d }
              | none, _ => do
                let d ← variableOf inner [TypeRef.any] "var"
                pure { parts with members := parts.members.set property.text d }
          | none, _ => unhandled inner n
        | .classStaticBlock => pure parts
        | _ => unhandled inner n
      else pure parts
    classMembers ctx (n :: before) rest parts
termination_by (sizeOf nodes, 0)

end

@[simp]
theorem objectMembers_nil (ctx : Context) (before : List Node) (members : Table Decl) :
    objectMembers ctx before [] members = pure members := by
  rw [objectMembers]

@[simp]
theorem classMembers_nil (ctx : Context) (before : List Node) (parts : ClassParts) :
    classMembers ctx before [] parts = pure parts := by
  rw [classMembers]

end Ambient.Build
