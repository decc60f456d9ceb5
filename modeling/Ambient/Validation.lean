import Ambient.Module
import Ambient.Notice

/-!
# Validation

Validation settles a module: every type that is not recognised becomes `any`, every base class
that is not recognised is dropped, and every alias that leads nowhere becomes a constant without a
value; each change leaves a diagnostic on the declaration that owns it.  What changes and what is
reported are two functions by the same recursion, `settle` and `report`, so that either can be
reasoned about without the other.
-/

namespace Ambient

namespace TypeRef

mutual

/-- The names of the outermost unrecognised types of a reference, from left to right.  A reference
with a namespace is taken on trust. -/
def unknown (known : List String) : TypeRef → List String
  | ⟨some _, _, _⟩ => []
  | ⟨none, name, args⟩ => if known.contains name then unknownAll known args else [name]

/-- The names of the outermost unrecognised types of several references. -/
def unknownAll (known : List String) : List TypeRef → List String
  | [] => []
  | t :: ts => unknown known t ++ unknownAll known ts

end

mutual

/-- The reference with its outermost unrecognised types replaced by `any`. -/
def settle (known : List String) : TypeRef → TypeRef
  | ⟨some s, name, args⟩ => ⟨some s, name, args⟩
  | ⟨none, name, args⟩ =>
    if known.contains name then ⟨none, name, settleAll known args⟩ else any

/-- The references with their outermost unrecognised types replaced by `any`. -/
def settleAll (known : List String) : List TypeRef → List TypeRef
  | [] => []
  | t :: ts => settle known t :: settleAll known ts

end

end TypeRef

namespace Validation

/-- What validation checks against: the recognised types and the names of the module's items. -/
structure Scope where
  known : List String
  items : List String

/-- The diagnostic of an unrecognised type. -/
def typeMessage (name : String) : String :=
  "Type \"" ++ name ++ "\" was not found"

/-- The diagnostic of a parameter's unrecognised type. -/
def paramMessage (param name : String) : String :=
  "Parameter \"" ++ param ++ "\" type \"" ++ name ++ "\" was not found"

/-- The diagnostic of a result's unrecognised type. -/
def resultMessage (name : String) : String :=
  "Result type \"" ++ name ++ "\" was not found"

/-- The diagnostic of an unrecognised base class. -/
def baseMessage (name : String) : String :=
  "Base class \"" ++ name ++ "\" was not found"

/-- The diagnostic of an alias that leads nowhere. -/
def aliasMessage (target : String) : String :=
  "Alias target \"" ++ target ++ "\" was not found"

/-- The unrecognised types of a function: parameters in order, then the result. -/
def unknownOf (s : Scope) (fn : Callable) : List String :=
  fn.params.flatMap (fun p => TypeRef.unknownAll s.known p.types) ++
    TypeRef.unknownAll s.known fn.result

/-- The diagnostics of a function, in the same order. -/
def messagesOf (s : Scope) (fn : Callable) : List String :=
  fn.params.flatMap (fun p => (TypeRef.unknownAll s.known p.types).map (paramMessage p.name)) ++
    (TypeRef.unknownAll s.known fn.result).map resultMessage

/-- A function with its types settled. -/
def settleCallable (s : Scope) (fn : Callable) : Callable :=
  { fn with
    header := { fn.header with diagnostics := fn.header.diagnostics ++ messagesOf s fn }
    params := fn.params.map fun p => { p with types := TypeRef.settleAll s.known p.types }
    result := TypeRef.settleAll s.known fn.result }

/-- A base class stands when it is recognised or dotted. -/
def baseStands (s : Scope) (base : String) : Bool :=
  s.known.contains base || base.toList.contains '.'

/-- The header of a class: a dropped base leaves a diagnostic. -/
def classHeader (s : Scope) (h : Header) (base : Option String) : Header :=
  match base with
  | some b => if baseStands s b then h else h.warn (baseMessage b)
  | none => h

/-- What takes the place of an alias that leads nowhere. -/
def placeholder (h : Header) (target : String) : Decl :=
  .constant (h.warn (aliasMessage target)) none

mutual

/-- A declaration settled. -/
def settle (s : Scope) : Decl → Decl
  | .binding h ts k =>
    .binding (h.warnEach typeMessage (TypeRef.unknownAll s.known ts))
      (TypeRef.settleAll s.known ts) k
  | .typedef h ts =>
    .typedef (h.warnEach typeMessage (TypeRef.unknownAll s.known ts))
      (TypeRef.settleAll s.known ts)
  | .function fn => .function (settleCallable s fn)
  | .classDef h c ms b =>
    .classDef (classHeader s h b) (c.map (settleCallable s)) (settleTable s ms)
      (b.filter (baseStands s))
  | .object h ms => .object h (settleTable s ms)
  | .aliasOf h t => if s.items.contains t then .aliasOf h t else placeholder h t
  | .constant h v => .constant h v
  | .imported h p n => .imported h p n

/-- The members of a declaration settled. -/
def settleTable (s : Scope) : List (String × Decl) → List (String × Decl)
  | [] => []
  | (name, d) :: rest => (name, settle s d) :: settleTable s rest

end

/-- An item of the module settled: it may not be an alias of itself. -/
def settleItem (s : Scope) (name : String) (d : Decl) : Decl :=
  match d with
  | .aliasOf h t => if t = name then placeholder h t else settle s d
  | _ => settle s d

mutual

/-- The notices of settling a declaration under a name. -/
def report (s : Scope) (name : String) : Decl → Log
  | .binding _ ts _ => (TypeRef.unknownAll s.known ts).map .typeDowngraded
  | .typedef _ ts => (TypeRef.unknownAll s.known ts).map .typeDowngraded
  | .function fn => (unknownOf s fn).map .typeDowngraded
  | .classDef _ c ms _ =>
    (c.toList.flatMap (unknownOf s)).map .typeDowngraded ++ reportTable s ms
  | .object _ ms => reportTable s ms
  | .aliasOf _ t => if s.items.contains t then [] else [.aliasReplaced name t]
  | .constant _ _ => []
  | .imported _ _ _ => []

/-- The notices of settling the members of a declaration. -/
def reportTable (s : Scope) : List (String × Decl) → Log
  | [] => []
  | (name, d) :: rest => report s name d ++ reportTable s rest

end

/-- The notices of settling an item of the module. -/
def reportItem (s : Scope) (name : String) (d : Decl) : Log :=
  match d with
  | .aliasOf _ t => if t = name then [.aliasReplaced name t] else report s name d
  | _ => report s name d

end Validation

namespace Module

/-- What the module is validated against. -/
def scope (m : Module) (extra : List String) : Validation.Scope :=
  ⟨m.knownTypes extra, m.items.names⟩

/-- The module with every declaration settled. -/
def validate (m : Module) (extra : List String) : Module :=
  let s := m.scope extra
  { m with
    items := m.items.map fun e => (e.1, Validation.settleItem s e.1 e.2)
    aggregate := m.aggregate.map (Validation.settle s) }

/-- The notices of validating the module. -/
def validationLog (m : Module) (extra : List String) : Log :=
  let s := m.scope extra
  m.items.flatMap (fun e => Validation.reportItem s e.1 e.2) ++
    m.aggregate.toList.flatMap (Validation.report s "")

end Module

end Ambient
