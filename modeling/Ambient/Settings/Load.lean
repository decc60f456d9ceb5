import Ambient.Json.Reader
import Ambient.Settings.Basic
import Ambient.Settings.EnvFile
import Ambient.Text.Lower

/-!
# Where settings come from

Settings are given directly, by variables of the environment, or by variables of a file, in this
order of priority, and merged field by field.  Names of variables are compared without regard to
case.  A group of settings is given as one value of the data format, or by variables for its
fields, which are merged over it.
-/

namespace Ambient

/-- Where variables are set. -/
inductive VariableSource where
  | environment
  | file
  deriving DecidableEq, Repr

namespace VariableSource

/-- What messages call the source. -/
def name : VariableSource → String
  | environment => "EnvSettingsSource"
  | file => "DotEnvSettingsSource"

end VariableSource

/-- Why no settings were loaded. -/
inductive SettingsFault where
  /-- A variable that should hold a value of the data format does not. -/
  | unreadable (field : String) (source : VariableSource)
  /-- The values do not fit the settings. -/
  | invalid (issues : List Schema.Issue)

namespace SettingsFault

/-- The wording of a variable that cannot be read. -/
def unreadableMessage (field : String) (source : VariableSource) : String :=
  "error parsing value for field \"" ++ field ++ "\" from source \"" ++ source.name ++ "\""

end SettingsFault

namespace Settings

/-! ### Merging -/

mutual

/-- A value over another: objects are merged, anything else is replaced. -/
def mergeValue (base : Json) : Json → Json
  | .obj fs =>
    match base with
    | .obj bs => .obj (mergeFields bs fs)
    | _ => .obj fs
  | v => v

/-- Fields over a table. -/
def mergeFields (base : Table Json) : List (String × Json) → Table Json
  | [] => base
  | (k, v) :: rest =>
    let v := match base.get? k with
      | some b => mergeValue b v
      | none => v
    mergeFields (base.set k v) rest

end

/-! ### Variables -/

/-- A setting, and the fields of a group with those that hold values of the data format. -/
structure Field where
  name : String
  group : Option (List (String × Bool))

/-- The settings that variables can give. -/
def settingFields : List Field :=
  [⟨"module_name", none⟩, ⟨"debug", none⟩,
   ⟨"emitter", some [("colors", false), ("warnings", false), ("indent", false)]⟩,
   ⟨"resolver", some [("extra_types", true), ("module_loaders", true)]⟩]

/-- The usual names of the variables that give settings. -/
def variableNames : List String :=
  settingFields.flatMap fun f =>
    let name := "DTSGEN_" ++ f.name.toUpper
    name :: (f.group.getD []).map fun g => name ++ "__" ++ g.1.toUpper

/-- Variables with their values.  A name that stands bare in a file has none. -/
abbrev Variables := Table (Option String)

/-- Variables by their names in lower case. -/
def lowered (vars : Variables) : Variables :=
  Table.ofEntries (vars.map fun v => (Text.lower v.1, v.2))

/-- The parts of a name between double underscores. -/
def nameParts : List Char → List (List Char)
  | [] => [[]]
  | '_' :: '_' :: cs => [] :: nameParts cs
  | c :: cs =>
    match nameParts cs with
    | [] => [[c]]
    | p :: ps => (c :: p) :: ps

/-- Sets the value at a path of names, through objects only. -/
def setPath : Table Json → List String → Json → Table Json
  | fs, [], _ => fs
  | fs, [k], v => fs.set k v
  | fs, k :: ks, v =>
    match fs.get? k with
    | none => fs.set k (.obj (setPath [] ks v))
    | some (.obj inner) => fs.set k (.obj (setPath inner ks v))
    | some _ => fs

/-- The value of a field of a group: a text, or the value that the text denotes. -/
def fieldValue (group : List (String × Bool)) (path : List String) :
    Option String → Option Json
  | none => some .null
  | some text =>
    match path with
    | [name] =>
      if Table.get? group name = some true && !text.isEmpty then Json.parse? text
      else some (.str text)
    | _ => some (.str text)

/-- The fields of a group that variables give, none when one cannot be read. -/
def groupFields (stem : String) (group : List (String × Bool)) (vars : Variables) :
    Option (Table Json) :=
  vars.foldl (fun acc v =>
    match acc, Text.after? (stem ++ "__").toList v.1.toList with
    | some fs, some rest =>
      let path := (nameParts rest).map String.ofList
      (fieldValue group path v.2).map (setPath fs path)
    | acc, _ => acc) (some [])

/-- The fields of a group under their own names, whatever their case. -/
def ownNames (group : List (String × Bool)) (fs : Table Json) : Table Json :=
  Table.ofEntries (fs.map fun f =>
    match group.find? fun g => g.1 = Text.lower f.1 with
    | some g => (g.1, f.2)
    | none => f)

/-- The value of one setting, none when it is not given; fails when it cannot be read. -/
def settingValue (stem : String) (vars : Variables) (field : Field) : Option (Option Json) :=
  let name := stem ++ field.name
  match field.group, (vars.get? name).join with
  | none, text => some (text.map .str)
  | some group, none =>
    (groupFields name group vars).map fun fs => if fs.isEmpty then none else some (.obj fs)
  | some group, some text =>
    match Json.parse? text with
    | none => none
    | some .null => some none
    | some (.obj fs) =>
      (groupFields name group vars).map fun own => some (.obj (ownNames group (mergeFields fs own)))
    | some v => some (some v)

/-- The settings that variables give. -/
def ofVariables (source : VariableSource) (stem : String) (vars : Variables) :
    List Field → Except SettingsFault (Table Json)
  | [] => return []
  | field :: rest =>
    match settingValue stem vars field with
    | none => throw (.unreadable field.name source)
    | some v => do
      let others ← ofVariables source stem vars rest
      return (v.toList.map fun v => (field.name, v)) ++ others

/-- A variable that gives a setting, or whose name begins like that of a group. -/
def isUsed (stem name : String) : Bool :=
  settingFields.any fun f =>
    name = stem ++ f.name || (f.group.isSome && Text.startsWith (stem ++ f.name) name)

/-- The variables of a file that are no settings: each counts as a setting of its full name. -/
def strayVariables (stem : String) (vars : Variables) (given : Table Json) : Table Json :=
  vars.filterMap fun v =>
    match v.2.bind Text.nonEmpty? with
    | some text =>
      if given.has v.1 || (!stem.isEmpty && Schema.settingNames.contains v.1) || isUsed stem v.1
      then none
      else some (v.1, .str text)
    | none => none

/-- What settings are loaded from. -/
structure Origin where
  /-- The variables of the environment. -/
  environment : Table String := []
  /-- What the names of variables begin with. -/
  stem : String := "DTSGEN_"
  /-- The text of a file of variables. -/
  file : Option String := none
  /-- Settings that are given directly. -/
  direct : Table Json := []

/-- The settings of a run. -/
def load (o : Origin) : Except SettingsFault Settings := do
  let stem := Text.lower o.stem
  let outer := lowered (o.environment.mapEntries some)
  let byEnvironment ← ofVariables .environment stem outer settingFields
  let byFile ← match o.file with
    | none => pure []
    | some text => do
      let vars := lowered (EnvFile.read o.environment text)
      let given ← ofVariables .file stem vars settingFields
      pure (given ++ strayVariables stem vars given)
  let merged := mergeFields (mergeFields byFile byEnvironment) o.direct
  match Schema.settings merged with
  | .ok s => return s
  | .error is => throw (.invalid is)

end Settings

end Ambient
