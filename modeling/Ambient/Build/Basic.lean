import Ambient.Doc.Comment
import Ambient.Failure
import Ambient.Module
import Ambient.Source.Node
import Ambient.Trail
import Ambient.TypeExpr.Basic

/-!
# Building a module

The state that grows while the statements of a source are turned into declarations, and the
context in which a construct is read.  The context is passed down: it holds the trail of kinds and
the documentation comment of the nearest statement, class member or object member.  A failure ends
the pass, but what was registered and reported before it stays.
-/

namespace Ambient

/-- How sources are resolved: extra type names, and the functions that load a module. -/
structure Resolver where
  extraTypes : List String := []
  loaders : List String := ["require"]

/-- What a pass has found so far. -/
structure BuildState where
  module : Module
  log : Log := []
  /-- Where the comments start whose notices are already given. -/
  commentsRead : List Nat := []
  /-- The names registered so far, one entry for each registration. -/
  registered : List String := []

/-- Where in the source a construct is read. -/
structure Context where
  resolver : Resolver := {}
  trail : Trail := []
  /-- The comment that documents what is being read. -/
  comment : Option Node := none

/-- A step of building a module. -/
abbrev Build := ExceptT Failure (StateM BuildState)

namespace Context

/-- The context inside a node. -/
def enter (ctx : Context) (n : Node) : Context :=
  { ctx with trail := ctx.trail.enter n.kind.name }

/-- The comment that documents a node, from the siblings before it, the nearest first: a block
comment that is not detached, with nothing but separators and other comments in between. -/
def documenting : List Node → Option Node
  | [] => none
  | n :: before =>
    if n.kind == .token ";" || n.kind == .token "," then documenting before
    else if n.isComment then
      if Doc.isBlock n.text && !Doc.isDetached n.text then some n else documenting before
    else none

/-- The context of a statement or member behind the given siblings, the nearest first. -/
def behind (ctx : Context) (before : List Node) : Context :=
  { ctx with comment := documenting before }

end Context

namespace Build

/-- Gives notices. -/
def notify (notices : Log) : Build Unit :=
  modify fun s => { s with log := s.log ++ notices }

/-- Changes the module. -/
def modifyModule (f : Module → Module) : Build Unit :=
  modify fun s => { s with module := f s.module }

/-- The declaration registered under a name. -/
def item? (name : String) : Build (Option Decl) := do
  return (← get).module.items.get? name

/-- Registers a declaration. -/
def register (name : String) (d : Decl) : Build Unit :=
  modify fun s => { s with module := s.module.add name d, registered := name :: s.registered }

/-- How often a name was registered. -/
def registrations (name : String) : Build Nat := do
  return (← get).registered.count name

/-- Ends the pass at a construct that nothing handles. -/
def unhandled {α : Type} (ctx : Context) (n : Node) : Build α := do
  notify [.unhandled n.kind.name (Trail.text ctx.trail) n.line]
  throw (.unhandled n.kind.name ctx.trail (some n.line))

/-- The result of a step on types. -/
def ofTypes {α : Type} : Except TypeRef.Fault α → Build α
  | .ok a => return a
  | .error f => throw (.type f)

/-- Reads a comment; its notices are given the first time. -/
def readComment (n : Node) : Build Doc.Comment := do
  let doc := Doc.Comment.read n.text
  if !(← get).commentsRead.contains n.start then
    modify fun s => { s with commentsRead := n.start :: s.commentsRead }
    notify doc.notices
  return doc

/-- The documentation of what is being read. -/
def documentation (ctx : Context) : Build Doc.Comment :=
  match ctx.comment with
  | some n => readComment n
  | none => return {}

/-- A variable: typed by its documentation, else by the given types. -/
def variableOf (ctx : Context) (types : List TypeRef) (keyword : String) : Build Decl := do
  let doc ← documentation ctx
  let types ← match (doc.first? "type").bind (·.type) with
    | some e => ofTypes e.expand
    | none => pure types
  return .binding { description := doc.description } types keyword

/-- A variable of one type that is given by its name. -/
def variableNamed (ctx : Context) (type : String) : Build Decl := do
  let t ← ofTypes (TypeRef.named none type [])
  variableOf ctx [t] "var"

end Build

end Ambient
