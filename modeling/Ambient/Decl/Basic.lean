import Ambient.Table
import Ambient.TypeRef

/-!
# Declarations

A declaration says what one name of a module stands for.  All declarations share a header: whether
the name is exported, its description, and the diagnostics found on the way.  Classes and objects
hold tables of declarations, so the type is recursive through a list; functions over it come in
pairs, one for a declaration and one for a table.
-/

namespace Ambient

/-- What every declaration carries. -/
structure Header where
  exported : Bool := false
  description : String := ""
  diagnostics : List String := []
  deriving DecidableEq, Inhabited

namespace Header

/-- Adds a diagnostic after those already there. -/
def warn (h : Header) (message : String) : Header :=
  { h with diagnostics := h.diagnostics ++ [message] }

/-- Adds one diagnostic for each name, in order. -/
def warnEach (h : Header) (message : String → String) (names : List String) : Header :=
  { h with diagnostics := h.diagnostics ++ names.map message }

end Header

/-- A parameter of a function. -/
structure Parameter where
  name : String
  description : Option String := none
  types : List TypeRef := []
  optional : Bool := false
  rest : Bool := false
  deriving Inhabited

/-- A function: a declaration of its own, a method or a constructor. -/
structure Callable where
  header : Header := {}
  params : List Parameter := []
  result : List TypeRef := []
  isStatic : Bool := false
  deriving Inhabited

/-- What a name stands for. -/
inductive Decl where
  /-- A variable, with the keyword that declares it. -/
  | binding (header : Header) (types : List TypeRef) (keyword : String)
  /-- A constant with the source text of its value; without a value it holds a place. -/
  | constant (header : Header) (value : Option String)
  /-- A name of another module; without an imported name, that whole module. -/
  | imported (header : Header) (path : String) (name : Option String)
  | function (fn : Callable)
  /-- A class with its constructor, its members and the class it extends. -/
  | classDef (header : Header) (ctor : Option Callable) (members : List (String × Decl))
      (base : Option String)
  | object (header : Header) (members : List (String × Decl))
  /-- Another name for an item of the module. -/
  | aliasOf (header : Header) (target : String)
  | typedef (header : Header) (types : List TypeRef)

namespace Decl

instance : Inhabited Decl := ⟨constant {} none⟩

/-- The header of a declaration. -/
def header : Decl → Header
  | binding h _ _ => h
  | constant h _ => h
  | imported h _ _ => h
  | function fn => fn.header
  | classDef h _ _ _ => h
  | object h _ => h
  | aliasOf h _ => h
  | typedef h _ => h

/-- The declaration with its header changed. -/
def mapHeader (f : Header → Header) : Decl → Decl
  | binding h ts k => binding (f h) ts k
  | constant h v => constant (f h) v
  | imported h p n => imported (f h) p n
  | function fn => function { fn with header := f fn.header }
  | classDef h c ms b => classDef (f h) c ms b
  | object h ms => object (f h) ms
  | aliasOf h t => aliasOf (f h) t
  | typedef h ts => typedef (f h) ts

@[simp]
theorem header_mapHeader (f : Header → Header) (d : Decl) :
    (d.mapHeader f).header = f d.header := by
  cases d <;> rfl

/-- Whether the name is exported on its own. -/
def exported (d : Decl) : Bool :=
  d.header.exported

/-- The declaration with its export flag set. -/
def setExported (d : Decl) (b : Bool) : Decl :=
  d.mapHeader fun h => { h with exported := b }

/-- The declaration with a diagnostic added. -/
def warn (d : Decl) (message : String) : Decl :=
  d.mapHeader (·.warn message)

/-- The name of a declaration's kind. -/
def kind : Decl → String
  | binding .. => "variable"
  | constant .. => "constant"
  | imported .. => "import"
  | function .. => "function"
  | classDef .. => "class"
  | object .. => "object"
  | aliasOf .. => "identifier"
  | typedef .. => "typedef"

/-- Another name for something, not a declaration of its own. -/
def isAlias : Decl → Bool
  | aliasOf .. => true
  | _ => false

/-- A name taken from another module. -/
def isImported : Decl → Bool
  | imported .. => true
  | _ => false

/-- A declaration whose name is a type. -/
def isType : Decl → Bool
  | classDef .. => true
  | typedef .. => true
  | _ => false

@[simp]
theorem exported_setExported (d : Decl) (b : Bool) : (d.setExported b).exported = b := by
  simp [exported, setExported]

end Decl

end Ambient
