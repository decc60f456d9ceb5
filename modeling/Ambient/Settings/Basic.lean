import Ambient.Build.Basic
import Ambient.Render.Style
import Ambient.Schema.Decl

/-!
# Settings

The settings of a run, and the check of a table of values against them.  A field that the settings
do not know is an issue of its own; unknown fields of the nested groups are overlooked.
-/

namespace Ambient

/-- The settings of a run. -/
structure Settings where
  /-- The name of the module; empty or missing, the source decides. -/
  moduleName : Option String := none
  debug : Bool := false
  style : Style := {}
  resolver : Resolver := {}

namespace Settings

/-- The name of the module of a source. -/
def nameFor (s : Settings) (fallback : String) : String :=
  match s.moduleName with
  | some name => if name.isEmpty then fallback else name
  | none => fallback

end Settings

namespace Schema

/-- The layout of a declaration file. -/
def style (v : Json) : Check Style := do
  let fs ← fieldsOf .notRecord v
  .ap (.both Style.mk (withDefault fs "colors" false bool) (withDefault fs "warnings" true bool))
    (withDefault fs "indent" 4 int)

/-- How sources are resolved. -/
def resolver (v : Json) : Check Resolver := do
  let fs ← fieldsOf .notRecord v
  .both (fun ts ls => ⟨ts.eraseDups, ls.eraseDups⟩) (withDefault fs "extra_types" [] textSet)
    (withDefault fs "module_loaders" ["require"] textSet)

/-- The names of the settings. -/
def settingNames : List String :=
  ["module_name", "debug", "emitter", "resolver"]

/-- An issue for each field that is no setting. -/
def noOthers (fs : Table Json) : Check Unit :=
  match fs.filter fun f => !settingNames.contains f.1 with
  | [] => .ok ()
  | others => .error (others.map fun f => ⟨[f.1], .unknownField⟩)

/-- The settings of a run. -/
def settings (fs : Table Json) : Check Settings :=
  .both (fun s _ => s)
    (.ap (.ap (.both Settings.mk (withDefault fs "module_name" none optionalText)
        (withDefault fs "debug" false bool))
      (withDefault fs "emitter" {} style))
      (withDefault fs "resolver" {} resolver))
    (noOthers fs)

end Schema

end Ambient
