import Ambient.Text.Cut

/-!
# Type references

A type reference names a type of the declaration file: an optional namespace such as `external`, a
name, and arguments.  The name is never empty, so references are built through `TypeRef.named`,
which refuses the empty name, or from one of the fixed names below.
-/

namespace Ambient

/-- A reference to a type, with its arguments. -/
structure TypeRef where
  scope : Option String
  name : String
  args : List TypeRef

namespace TypeRef

/-- A type of the given name, without namespace or arguments. -/
def plain (name : String) : TypeRef :=
  ⟨none, name, []⟩

/-- The universal type. -/
def any : TypeRef :=
  plain "any"

instance : Inhabited TypeRef := ⟨any⟩

mutual

/-- Equality of references. -/
def beq : TypeRef → TypeRef → Bool
  | ⟨s, n, as⟩, ⟨s', n', as'⟩ => s == s' && n == n' && beqArgs as as'

/-- Equality of argument lists. -/
def beqArgs : List TypeRef → List TypeRef → Bool
  | [], [] => true
  | a :: as, b :: bs => beq a b && beqArgs as bs
  | _, _ => false

end

instance : BEq TypeRef := ⟨beq⟩

/-- Why a documented type has no reference in a declaration file. -/
inductive Fault where
  /-- The expression of this kind has no counterpart. -/
  | unsupported (kind : String)
  /-- A reference was about to get the empty name. -/
  | emptyName
  deriving DecidableEq, Repr

/-- A reference, unless its name would be empty. -/
def named (scope : Option String) (name : String) (args : List TypeRef) : Except Fault TypeRef :=
  if name.isEmpty then .error .emptyName else .ok ⟨scope, name, args⟩

/-- Namespace and name of `ns:Name`; the first colon divides them. -/
def divide (raw : String) : Option String × String :=
  match Text.splitFirst? ':' raw with
  | some (scope, name) => (some scope, name)
  | none => (none, raw)

/-- Documented names that have a spelling of their own in a declaration file. -/
def respell (name : String) : String :=
  if name = "Array" then "any[]" else if name = "*" then "any" else name

/-- The reference that a documented name stands for. -/
def ofName (raw : String) : Except Fault TypeRef :=
  let (scope, name) := divide raw
  named scope (respell name) []

/-- The names that are types in every declaration file. -/
def builtins : List String :=
  ["string", "String", "object", "Object", "number", "Number", "boolean", "Boolean", "Function",
   "any", "any[]", "void", "null", "undefined", "Array", "Record", "Date", "RegExp", "Error",
   "Promise", "symbol", "Symbol", "unknown", "never"]

end TypeRef

end Ambient
