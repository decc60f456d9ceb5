import Ambient.Json.Basic

/-!
# Notices

What a run reports besides its result: constructs it skipped, types it could not read or did not
know, files it read and wrote.  A notice is a value; its level, its wording and its fields are
functions of it.
-/

namespace Ambient

/-- How important a notice is. -/
inductive Level where
  | debug
  | info
  | warning
  deriving DecidableEq, Repr

namespace Level

/-- The name of a level. -/
def name : Level → String
  | debug => "debug"
  | info => "info"
  | warning => "warning"

/-- Levels in increasing order of importance. -/
def rank : Level → Nat
  | debug => 10
  | info => 20
  | warning => 30

end Level

/-- Something worth reporting. -/
inductive Notice where
  | unreadableType (tag type : String)
  | namelessTypedef (type : Option String)
  | callSkipped (callee : String) (line : Nat)
  | assignmentSkipped (target : String) (line : Nat)
  | prototypeSkipped (name : String) (line : Nat)
  | prototypeNotObject (name : String) (line : Nat)
  | prototypeMemberSkipped (name member : String) (line : Nat)
  | bareImportSkipped (path : String)
  | computedSkipped (line : Nat)
  | spreadSkipped (line : Nat)
  | unhandled (kind trail : String) (line : Nat)
  | aliasReplaced (name target : String)
  | typeDowngraded (name : String)
  | sourceRead (path module : String)
  | fileWritten (path : String)
  deriving DecidableEq, Repr

namespace Notice

/-- The level of a notice. -/
def level : Notice → Level
  | unreadableType .. | namelessTypedef .. => .warning
  | unhandled .. | typeDowngraded .. | sourceRead .. => .debug
  | _ => .info

/-- The wording of a notice. -/
def event : Notice → String
  | unreadableType .. => "Unparsable JSDoc type expression; tag left untyped"
  | namelessTypedef .. => "Skipping @typedef without a name"
  | callSkipped .. => "Call statement skipped"
  | assignmentSkipped .. => "Assignment skipped"
  | prototypeSkipped .. => "Prototype assignment skipped; no constructor function"
  | prototypeNotObject .. => "Prototype replaced with a non-object value; skipped"
  | prototypeMemberSkipped .. => "Prototype member skipped; no constructor function"
  | bareImportSkipped .. => "Side-effect import skipped"
  | computedSkipped .. => "Computed property skipped"
  | spreadSkipped .. => "Spread element skipped"
  | unhandled .. => "No handler for node"
  | aliasReplaced .. => "Unresolved alias replaced"
  | typeDowngraded .. => "Unknown type downgraded"
  | sourceRead .. => "Parsing source"
  | fileWritten .. => "Declaration file written"

/-- The named details of a notice, sorted by name. -/
def fields : Notice → Table Json
  | unreadableType tag type => [("tag", .str tag), ("type", .str type)]
  | namelessTypedef type => [("type", .ofOption type)]
  | callSkipped callee line => [("callee", .str callee), ("line", .int line)]
  | assignmentSkipped target line => [("line", .int line), ("target", .str target)]
  | prototypeSkipped name line => [("line", .int line), ("name", .str name)]
  | prototypeNotObject name line => [("line", .int line), ("name", .str name)]
  | prototypeMemberSkipped name member line =>
    [("line", .int line), ("member", .str member), ("name", .str name)]
  | bareImportSkipped path => [("module", .str path)]
  | computedSkipped line => [("line", .int line)]
  | spreadSkipped line => [("line", .int line)]
  | unhandled kind trail line =>
    [("line", .int line), ("node_type", .str kind), ("path", .str trail)]
  | aliasReplaced name target => [("name", .str name), ("target", .str target)]
  | typeDowngraded name => [("type", .str name)]
  | sourceRead path module => [("module", .str module), ("path", .str path)]
  | fileWritten path => [("path", .str path)]

end Notice

/-- Notices in the order in which they were given. -/
abbrev Log := List Notice

end Ambient
