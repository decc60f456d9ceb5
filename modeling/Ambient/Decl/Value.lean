import Ambient.Json.Basic
import Ambient.Module

/-!
# Declarations as values

The model of a module as a value of the data format.  The fields of a declaration are its header,
its kind, and what belongs to the kind, in this order.
-/

namespace Ambient

mutual

/-- A type reference as a value. -/
def TypeRef.toValue : TypeRef → Json
  | ⟨scope, name, args⟩ =>
    .obj [("namespace", .ofOption scope), ("name", .str name),
      ("parameters", .arr (TypeRef.toValues args))]

/-- Type references as values. -/
def TypeRef.toValues : List TypeRef → List Json
  | [] => []
  | t :: ts => t.toValue :: TypeRef.toValues ts

end

/-- A parameter as a value. -/
def Parameter.toValue (p : Parameter) : Json :=
  .obj [("name", .str p.name), ("description", .ofOption p.description),
    ("types", .arr (TypeRef.toValues p.types)), ("optional", .bool p.optional),
    ("rest", .bool p.rest)]

namespace Decl

/-- The header of a declaration and its kind. -/
def headFields (h : Header) (kind : String) : Table Json :=
  [("exported", .bool h.exported), ("description", .str h.description),
   ("errors", .arr (h.diagnostics.map fun m => .obj [("message", .str m)])), ("kind", .str kind)]

end Decl

/-- A function as a value. -/
def Callable.toValue (fn : Callable) : Json :=
  .obj (Decl.headFields fn.header "function" ++
    [("params", .arr (fn.params.map Parameter.toValue)),
     ("result", .arr (TypeRef.toValues fn.result)), ("is_static", .bool fn.isStatic)])

/-- A function or nothing. -/
def Callable.optionToValue : Option Callable → Json
  | some fn => fn.toValue
  | none => .null

mutual

/-- A declaration as a value. -/
def Decl.toValue : Decl → Json
  | .binding h ts k =>
    .obj (Decl.headFields h "variable" ++
      [("types", .arr (TypeRef.toValues ts)), ("keyword", .str k)])
  | .constant h v => .obj (Decl.headFields h "constant" ++ [("value", .ofOption v)])
  | .imported h p n =>
    .obj (Decl.headFields h "import" ++
      [("module_path", .str p), ("imported_name", .ofOption n)])
  | .function fn => fn.toValue
  | .classDef h c ms b =>
    .obj (Decl.headFields h "class" ++
      [("ctor", Callable.optionToValue c), ("members", .obj (Decl.tableToValue ms)),
       ("extends", .ofOption b)])
  | .object h ms =>
    .obj (Decl.headFields h "object" ++ [("members", .obj (Decl.tableToValue ms))])
  | .aliasOf h t => .obj (Decl.headFields h "identifier" ++ [("target", .str t)])
  | .typedef h ts =>
    .obj (Decl.headFields h "typedef" ++ [("types", .arr (TypeRef.toValues ts))])

/-- Named declarations as named values. -/
def Decl.tableToValue : List (String × Decl) → List (String × Json)
  | [] => []
  | (name, d) :: rest => (name, d.toValue) :: Decl.tableToValue rest

end

/-- A module as a value. -/
def Module.toValue (m : Module) : Json :=
  .obj [("name", .str m.name), ("description", .str m.description),
    ("items", .obj (Decl.tableToValue m.items)),
    ("exports", (m.aggregate.map Decl.toValue).getD .null)]

end Ambient
