import ComponentProjects.Project.Configuration
import ComponentProjects.Toml.Reader

/-! Reading settings files. -/
namespace ComponentProjects.Settings

def textList? : Toml → Option (List String)
  | .array items => items.mapM fun
    | .string value => some value
    | _ => none
  | _ => none

/-- The entry under a key, or the default when there is none. -/
def entryOr? (table : Toml.Growing) (key : String) (otherwise : α) (read : Toml → Option α) :
    Option α :=
  match table.get? key with
  | none => some otherwise
  | some value => read value

/-- The settings of a document. Entries it lacks keep their defaults and others are ignored. -/
def ofText? (text : String) : Option Settings := do
  let table ← Toml.read? text.toList
  let names ← entryOr? table "config_file_names" default.configurationNames textList?
  let runtime ← entryOr? table "runtime_package" default.runtimePackage fun
    | .string value => some value
    | _ => none
  return ⟨names, runtime⟩

end ComponentProjects.Settings
