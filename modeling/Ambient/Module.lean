import Ambient.Decl.Basic

/-!
# Modules

A module is a table of declarations and, when the module is exported as a whole, one more
declaration that replaces it.  `Module.add` is the only way a name gets a new declaration: a slot
that already exports its own name hands its export flag to the declaration that fills it.
-/

namespace Ambient

/-- The declarations of one source. -/
structure Module where
  name : String
  description : String := ""
  items : Table Decl := []
  /-- What the module is exported as; without it the items are exported one by one. -/
  aggregate : Option Decl := none

namespace Module

/-- What a slot hands to the declaration that fills it. -/
def handOver (name : String) (old : Option Decl) (d : Decl) : Decl :=
  match old with
  | some (.aliasOf h target) =>
    if target = name ∧ h.exported then
      d.mapHeader fun own =>
        { own with
          exported := true
          description := if own.description.isEmpty then h.description else own.description }
    else d
  | _ => d

/-- Registers a declaration, in place when the name is known. -/
def add (m : Module) (name : String) (d : Decl) : Module :=
  { m with items := m.items.set name (handOver name (m.items.get? name) d) }

/-- The items exported on their own. -/
def exportedItems (m : Module) : Table Decl :=
  m.items.filter (·.2.exported)

/-- Exports the module as a whole; no item stays exported on its own. -/
def setAggregate (m : Module) (d : Decl) : Module :=
  { m with items := m.items.mapEntries (·.setExported false), aggregate := some d }

/-- Marks an item as exported. -/
def markExported (m : Module) (name : String) : Module :=
  { m with items := m.items.update name (·.setExported true) }

/-- The names recognised as types: the built-in ones, the given ones, classes and typedefs. -/
def knownTypes (m : Module) (extra : List String) : List String :=
  TypeRef.builtins ++ extra ++ (m.items.filter (·.2.isType)).map Prod.fst

/-- The recognised types that are not built in, sorted and without repetition. -/
def addedTypes (m : Module) (extra : List String) : List String :=
  (((m.knownTypes extra).filter fun n => !TypeRef.builtins.contains n).eraseDups).mergeSort
    fun a b => !(decide (b < a))

end Module

end Ambient
