import ComponentProjects.FileTree.Basic
import ComponentProjects.Json.Decode

/-! Installed packages and what their manifests declare. -/
namespace ComponentProjects

def packageDirectory : Path := .ofString "node_modules"

def manifestName : Path := .ofString "package.json"

/-- The typings that a manifest declares, the first name of the field before the second. -/
def declaredTypings? (text : String) : Option (Option String) := do
  let outline ← Json.Outline.ofText? text.toList
  match ← outline.record? ["types", "typings"] with
  | [types, typings] =>
    let types ← Json.Outline.optional? Json.Outline.string? types
    let typings ← Json.Outline.optional? Json.Outline.string? typings
    return types.or typings
  | _ => none

/-- The entry file that a manifest declares: its typings, or else its main script. -/
def declaredMain? (text : String) : Option (Option String) := do
  let outline ← Json.Outline.ofText? text.toList
  match ← outline.record? ["types", "typings", "main"] with
  | [types, typings, main] =>
    let types ← Json.Outline.optional? Json.Outline.string? types
    let typings ← Json.Outline.optional? Json.Outline.string? typings
    let main ← Json.Outline.optional? Json.Outline.string? main
    return (types.or typings).or main
  | _ => none

structure Package where
  name : String
  location : Path
  typings : Option Path
deriving DecidableEq, Repr

namespace Package

/-- The package installed in one directory. A manifest that cannot be read as one is
passed over with a warning. -/
def inDirectory? (tree : FileTree) (name : String) (dir : Path) : Noted (Option Package) := do
  let location := (dir.join packageDirectory).join (.ofString name)
  match ← tree.contents? (location.join manifestName) with
  | none => return none
  | some text =>
    match declaredTypings? text with
    | none =>
      Noted.warn (.malformedManifest name)
      return none
    | some typings =>
      return some ⟨name, location, typings.map fun t => (location.join (.ofString t)).normal⟩

/-- The package installed nearest, from a directory upward. -/
def locate? (tree : FileTree) (name : String) (dir : Path) : Noted (Option Package) :=
  Noted.firstUpward (inDirectory? tree name) dir

end Package

end ComponentProjects
