import Ambient.Decl.Basic
import Ambient.Schema.Check

/-!
# Declarations from values

The checks of types, parameters and declarations.  A declaration says its kind in the field
`kind`; the paths of its issues begin with that kind.  Types and declarations nest, and the depth
of the value is the fuel of the recursion, which the last definitions of the module hide.
-/

namespace Ambient

namespace Json

mutual

/-- How deeply a value nests. -/
def depth : Json → Nat
  | .arr xs => depthItems xs + 1
  | .obj fs => depthFields fs + 1
  | _ => 1

/-- The greatest depth of the items of an array. -/
def depthItems : List Json → Nat
  | [] => 0
  | x :: xs => max (depth x) (depthItems xs)

/-- The greatest depth of the fields of an object. -/
def depthFields : List (String × Json) → Nat
  | [] => 0
  | (_, v) :: fs => max (depth v) (depthFields fs)

end

end Json

namespace Schema

/-- The fields of an object; `fault` is the issue of any other value. -/
def fieldsOf (fault : Fault) : Json → Check (Table Json)
  | .obj fs => .ok fs
  | _ => .fail fault

/-- A type name, which must not be empty. -/
def typeName (v : Json) : Check String := do
  let s ← text v
  if s.isEmpty then .fail .emptyName else .ok s

/-- A type reference nested at most `n` deep. -/
def typeRefAt : Nat → Json → Check TypeRef
  | 0, _ => .fail .tooDeep
  | n + 1, v => do
    let fs ← fieldsOf .notRecord v
    .ap (.both TypeRef.mk (withDefault fs "namespace" none optionalText)
        (required fs "name" typeName))
      (withDefault fs "parameters" [] (listOf (typeRefAt n)))

/-- A type reference. -/
def typeRef (v : Json) : Check TypeRef :=
  typeRefAt v.depth v

/-- A list of type references. -/
def typeRefs : Json → Check (List TypeRef) :=
  listOf typeRef

/-- A parameter. -/
def parameter (v : Json) : Check Parameter := do
  let fs ← fieldsOf .notRecord v
  .ap (.ap (.ap (.both Parameter.mk (required fs "name" text)
        (withDefault fs "description" none optionalText))
      (withDefault fs "types" [] typeRefs))
    (withDefault fs "optional" false bool))
    (withDefault fs "rest" false bool)

/-- A diagnostic. -/
def diagnostic (v : Json) : Check String := do
  let fs ← fieldsOf .notRecord v
  required fs "message" text

/-- What every declaration carries. -/
def header (fs : Table Json) : Check Header :=
  .ap (.both Header.mk (withDefault fs "exported" false bool)
      (withDefault fs "description" "" text))
    (withDefault fs "errors" [] (listOf diagnostic))

/-- A function. -/
def callable (fs : Table Json) : Check Callable :=
  .ap (.ap (.both Callable.mk (header fs) (withDefault fs "params" [] (listOf parameter)))
      (withDefault fs "result" [] typeRefs))
    (withDefault fs "is_static" false bool)

/-- The kind of a constructor, which is always a function. -/
def functionKind : Json → Check Unit
  | .str "function" => .ok ()
  | _ => .fail .notFunction

/-- A constructor, or nothing. -/
def constructor : Json → Check (Option Callable)
  | .null => .ok none
  | v => do
    let fs ← fieldsOf .notRecord v
    .both (fun c _ => some c) (callable fs) (withDefault fs "kind" () functionKind)

/-- The entries of an object, each checked under its key. -/
def tableOf {α : Type} (entry : Json → Check α) (v : Json) : Check (List (String × α)) := do
  let fs ← fieldsOf .notTable v
  Check.all (fs.map fun e => ((entry e.2).under e.1).map fun a => (e.1, a))

/-- A declaration of the given kind, none when there is no such kind. -/
def declOfKind (nested : Json → Check Decl) (kind : String) (fs : Table Json) :
    Option (Check Decl) :=
  match kind with
  | "variable" =>
    some <| .ap (.both Decl.binding (header fs) (withDefault fs "types" [] typeRefs))
      (withDefault fs "keyword" "var" text)
  | "constant" =>
    some <| .both Decl.constant (header fs) (withDefault fs "value" none optionalText)
  | "import" =>
    some <| .ap (.both Decl.imported (header fs) (required fs "module_path" text))
      (withDefault fs "imported_name" none optionalText)
  | "function" => some ((callable fs).map Decl.function)
  | "class" =>
    some <| .ap (.ap (.both Decl.classDef (header fs) (withDefault fs "ctor" none constructor))
        (withDefault fs "members" [] (tableOf nested)))
      (withDefault fs "extends" none optionalText)
  | "object" =>
    some <| .both Decl.object (header fs) (withDefault fs "members" [] (tableOf nested))
  | "identifier" => some <| .both Decl.aliasOf (header fs) (required fs "target" text)
  | "typedef" => some <| .both Decl.typedef (header fs) (withDefault fs "types" [] typeRefs)
  | _ => none

/-- A declaration nested at most `n` deep. -/
def declAt : Nat → Json → Check Decl
  | 0, _ => .fail .tooDeep
  | n + 1, v => do
    let fs ← fieldsOf .notDecl v
    match fs.get? "kind" with
    | none => .fail .kindMissing
    | some (.str kind) =>
      match declOfKind (declAt n) kind fs with
      | some check => check.under kind
      | none => .fail .kindUnknown
    | some _ => .fail .kindUnknown

/-- A declaration. -/
def decl (v : Json) : Check Decl :=
  declAt v.depth v

end Schema

end Ambient
