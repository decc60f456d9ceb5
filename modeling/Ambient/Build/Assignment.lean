import Ambient.Build.Function

/-!
# Assignments

An assignment to `module.exports`, to a member of an export object, or to a prototype changes the
module; any other is skipped.  The steps here take the reading of the assigned value as an argument
and run it at the right moment, so they do not depend on how values are read.
-/

namespace Ambient.Build

/-- The dotted path that an assignment's left side spells. -/
def chain (ctx : Context) (n : Node) : Build String :=
  let ctx := ctx.enter n
  match n.kind with
  | .identifier => return n.text
  | .propertyIdentifier => return n.text
  | .thisValue => return n.text
  | .memberExpression =>
    match h : n.child? .receiver, h' : n.child? .property with
    | some receiver, some property => do
      have := Node.sizeOf_lt_of_mem_children (Node.mem_children_of_child? h)
      have := Node.sizeOf_lt_of_mem_children (Node.mem_children_of_child? h')
      let owner ← chain ctx receiver
      let member ← chain ctx property
      return owner ++ "." ++ member
    | _, _ => unhandled ctx n
  | _ => unhandled ctx n
termination_by sizeOf n

/-- What an assignment to a path means. -/
inductive Target where
  /-- The module is exported as a whole. -/
  | aggregate
  /-- A member of the module is exported. -/
  | exported (name : String)
  /-- The prototype of a constructor is replaced. -/
  | prototype (owner : String)
  /-- A member of a prototype is set. -/
  | prototypeMember (owner member : String)
  /-- Nothing that concerns the module. -/
  | other
  deriving DecidableEq, Repr

/-- What an assignment to a dotted path means. -/
def Target.ofPath (path : String) : Target :=
  let (owner, member) := (Text.splitLast? '.' path).getD ("", path)
  if path = "module.exports" then .aggregate
  else if owner = "exports" || owner = "module.exports" then .exported member
  else if member = "prototype" && !owner.isEmpty && !Text.hasChar '.' owner then .prototype owner
  else
    match Text.before? ".prototype" owner with
    | some name => .prototypeMember name member
    | none => .other

/-- Exports a value as a member of the module.  An item of the same name is marked where it
stands. -/
def exportMember (name : String) (right : Node) (value : Build Decl) : Build Unit := do
  modifyModule fun m => { m with aggregate := none }
  let inPlace := right.kind == .identifier && right.text == name &&
    ((← item? name).any fun d => !d.isAlias)
  if inPlace then modifyModule (·.markExported name)
  else
    let d ← value
    register name (d.setExported true)

/-- Turns the function under a name into a class; says whether a class is there. -/
def promote (name : String) : Build Bool := do
  match ← item? name with
  | some (.classDef ..) => return true
  | some (.function fn) =>
    let cls := classOf fn fn.header.description none
    modifyModule fun m => { m with items := m.items.set name cls }
    return true
  | _ => return false

/-- Changes the members of the class under a name. -/
def modifyMembers (name : String) (f : Table Decl → Table Decl) : Build Unit :=
  modifyModule fun m =>
    { m with items := m.items.update name fun d =>
        match d with
        | .classDef h c ms b => .classDef h c (f ms) b
        | d => d }

/-- Reads a value for the class under a name and changes its members by it.  A class that was
replaced while the value was read is out of the module, and the change with it. -/
def withClass (name : String) (value : Build Decl)
    (change : Decl → Build (Table Decl → Table Decl)) : Build Unit := do
  let before ← registrations name
  let d ← value
  let f ← change d
  if (← registrations name) = before then modifyMembers name f

/-- Replaces a prototype: an object's members become members of the class. -/
def assignPrototype (owner : String) (right : Node) (value : Build Decl) : Build Unit := do
  if ← promote owner then
    withClass owner value fun
      | .object _ ms => return fun members => members.setAll ms
      | _ => do
        notify [.prototypeNotObject owner right.line]
        return id
  else notify [.prototypeSkipped owner right.line]

/-- Sets a member of a prototype. -/
def assignPrototypeMember (owner member : String) (right : Node) (value : Build Decl) :
    Build Unit := do
  if ← promote owner then
    withClass owner value fun d => return fun members => members.set member d
  else notify [.prototypeMemberSkipped owner member right.line]

/-- Applies an assignment to a path. -/
def assignTo (path : String) (line : Nat) (right : Node) (value : Build Decl) : Build Unit := do
  match Target.ofPath path with
  | .aggregate =>
    let d ← value
    modifyModule (·.setAggregate d)
  | .exported name => exportMember name right value
  | .prototype owner => assignPrototype owner right value
  | .prototypeMember owner member => assignPrototypeMember owner member right value
  | .other =>
    notify [.assignmentSkipped path line]
    if right.kind == .assignmentExpression then
      let _ ← value

end Ambient.Build
