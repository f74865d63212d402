import ComponentProjects.Project.Configuration
import ComponentProjects.Project.Key

/-! The inspector: for each file, the project that governs it and that project's configuration. -/
namespace ComponentProjects

structure FileReport where
  file : Path
  project : String
  templated : Bool
  configuration : Configuration

namespace Inspection

/-- The configurations loaded so far, one for each project. -/
abbrev Loaded := Table ProjectKey Configuration

/-- A project's configuration, loaded when it is not there yet. -/
def configurationOf (loader : Loader) (tree : FileTree) (root : Path) (key : ProjectKey)
    (loaded : Loaded) : Noted (Configuration × Loaded) :=
  match loaded.get? key with
  | some configuration => return (configuration, loaded)
  | none => do
    let configuration ← loader.load tree key.file? root
    return (configuration, loaded.insert key configuration)

def inspectFrom (loader : Loader) (tree : FileTree) (root : Path) :
    List Path → Loaded → Noted (List FileReport)
  | [], _ => return []
  | path :: rest, loaded => do
    let file := (root.join path).normal
    let key := ProjectKey.ofGoverning (← loader.governing? tree file root)
    let (configuration, loaded) ← configurationOf loader tree root key loaded
    let reports ← inspectFrom loader tree root rest loaded
    return ⟨file, key.display, file.isTemplated, configuration⟩ :: reports

/-- Report on files, whose paths are read from the workspace root. -/
def inspect (loader : Loader) (tree : FileTree) (root : Path) (files : List Path) :
    Noted (List FileReport) := inspectFrom loader tree root files ∅

end Inspection

def Path.toJson (p : Path) : Json := .string p.toString

def Configuration.toJson (c : Configuration) : Json := .object
  [("configPath", .optional (c.file?.map Path.toJson)),
    ("directory", c.directory.toJson),
    ("compilerOptions", .ofTable c.options),
    ("rootFiles", .array (c.rootFiles.map Path.toJson))]

def FileReport.toJson (r : FileReport) : Json := .object
  [("file", r.file.toJson),
    ("project", .string r.project),
    ("templated", .bool r.templated),
    ("configuration", r.configuration.toJson)]

end ComponentProjects
