import Ambient.Module
import Ambient.Render.Decl

/-!
# The declaration file of a module

A header with the module's description, one block for each item in order, one for the aggregate
export when there is one, and the closing brace.  Blocks are separated by empty lines.
-/

namespace Ambient.Render

/-- The item that stands for the module's default export. -/
def defaultLines (st : Style) (d : Decl) : List String :=
  match d with
  | .aliasOf h target =>
    framed st (st.margin 1) h [] [st.margin 1 ++ "export default " ++ target ++ ";"]
  | _ =>
    itemLines st 1 "_default" (d.setExported false) ++ [st.margin 1 ++ "export default _default;"]

/-- The lines of one entry of a module. -/
def entryLines (st : Style) (name : String) (d : Decl) : List String :=
  if name = "default" && !d.isImported then defaultLines st d else itemLines st 1 name d

/-- The export of the module as a whole: an item by its name, anything else under a name of its
own. -/
def aggregateLines (st : Style) (items : Table Decl) (d : Decl) : List String :=
  let own :=
    itemLines st 1 "_exports" (d.setExported false) ++ [st.margin 1 ++ "export = _exports;"]
  match d with
  | .aliasOf h target =>
    if items.has target then
      framed st (st.margin 1) h [] [st.margin 1 ++ "export = " ++ target ++ ";"]
    else own
  | _ => own

/-- The lines of a module's declaration file. -/
def moduleLines (st : Style) (m : Module) : List String :=
  st.docBlock "" m.description [] ++ ["declare module \"" ++ m.name ++ "\" \x7b"] ++
    m.items.flatMap (fun e => "" :: entryLines st e.1 e.2) ++
    m.aggregate.toList.flatMap (fun d => "" :: aggregateLines st m.items d) ++ ["\x7d"]

/-- The text of a module's declaration file. -/
def file (st : Style) (m : Module) : String :=
  Text.joinLines (moduleLines st m) ++ "\n"

/-- The text of several modules, one after another. -/
def files (st : Style) (ms : List Module) : String :=
  Text.joinLines (ms.map (file st))

end Ambient.Render
