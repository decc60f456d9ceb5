import Ambient.TypeRef

/-!
# Documented type expressions

The tree of a type as documentation comments write it, and its expansion into the flat list of
alternatives that a declaration file can show.  Unions, nullable and optional marks and rest marks
disappear in the expansion; functions, records and the unknown type have no counterpart.
-/

namespace Ambient

/-- A type expression of a documentation comment. -/
inductive TypeExpr where
  | name (name : String)
  | union (elements : List TypeExpr)
  | apply (head : TypeExpr) (args : List TypeExpr)
  | optional (operand : TypeExpr)
  /-- Marked `?`, before the operand or after it. -/
  | nullable (operand : TypeExpr) (before : Bool)
  /-- Marked `!`, before the operand or after it. -/
  | nonNullable (operand : TypeExpr) (before : Bool)
  | variadic (operand : Option TypeExpr)
  | all
  | unknown
  | field (key : String) (value : Option TypeExpr)
  | record (fields : List TypeExpr)
  | function (params : List TypeExpr) (result : Option TypeExpr)
  /-- An expression of no particular kind. -/
  | bare

namespace TypeExpr

instance : Inhabited TypeExpr := ⟨bare⟩

/-- The name of an expression's kind, as messages show it. -/
def kind : TypeExpr → String
  | name _ => "NameExpression"
  | union _ => "UnionType"
  | apply _ _ => "TypeApplication"
  | optional _ => "OptionalType"
  | nullable _ _ => "NullableType"
  | nonNullable _ _ => "NonNullableType"
  | variadic _ => "RestType"
  | all => "AllLiteral"
  | unknown => "NullableLiteral"
  | field _ _ => "FieldType"
  | record _ => "RecordType"
  | function _ _ => "FunctionType"
  | bare => "TypeExpr"

/-- The expression makes the parameter it documents optional. -/
def isOptional : TypeExpr → Bool
  | optional _ => true
  | _ => false

/-- `Object` with a key and a value type is a record of these. -/
def applied (scope : Option String) (name : String) (args : List TypeRef) :
    Except TypeRef.Fault TypeRef :=
  let name := if scope = none ∧ name = "Object" ∧ args.length = 2 then "Record" else name
  TypeRef.named scope name args

mutual

/-- The alternatives of an expression, in order. -/
def expand : TypeExpr → Except TypeRef.Fault (List TypeRef)
  | union es => expandEach es
  | name n => do return [← TypeRef.ofName n]
  | apply head args =>
    match head with
    | name n => do
      let refs ← expandArgs args
      let (scope, own) := TypeRef.divide n
      return [← applied scope own refs]
    | head => throw (.unsupported head.kind)
  | optional e => expand e
  | nonNullable e _ => expand e
  | nullable e _ => do return (← expand e) ++ [TypeRef.plain "null"]
  | variadic none => return [TypeRef.any]
  | variadic (some e) => expand e
  | all => return [TypeRef.any]
  | unknown => throw (.unsupported (kind unknown))
  | field k v => throw (.unsupported (kind (field k v)))
  | record fs => throw (.unsupported (kind (record fs)))
  | function ps r => throw (.unsupported (kind (function ps r)))
  | bare => throw (.unsupported (kind bare))

/-- The alternatives of several expressions, one after another. -/
def expandEach : List TypeExpr → Except TypeRef.Fault (List TypeRef)
  | [] => return []
  | e :: es => do
    let first ← expand e
    let others ← expandEach es
    return first ++ others

/-- Arguments of a generic type: each must have exactly one alternative. -/
def expandArgs : List TypeExpr → Except TypeRef.Fault (List TypeRef)
  | [] => return []
  | e :: es => do
    match ← expand e with
    | [r] => do
      let rs ← expandArgs es
      return r :: rs
    | _ => throw (.unsupported e.kind)

end

end TypeExpr

end Ambient
