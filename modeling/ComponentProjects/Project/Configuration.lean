import ComponentProjects.Project.Roots

/-! The configuration that a project's sessions are built from. -/
namespace ComponentProjects

structure Configuration where
  /-- The governing project file; the global project has none. -/
  file? : Option Path
  /-- Where relative paths are read from. -/
  directory : Path
  options : Options
  rootFiles : List Path

/-- How projects are found and which package seeds their typings. -/
structure Settings where
  /-- The names of project files, tried in order in each directory. -/
  configurationNames : List String
  runtimePackage : String
deriving DecidableEq, Repr

def Settings.default : Settings := ⟨["tsconfig.json", "jsconfig.json"], "widget"⟩

structure Loader where
  settings : Settings
  /-- Whether installed packages are looked at. -/
  findsPackages : Bool

namespace Loader

/-- The directories a project file may govern a path from: the path itself when it is a
directory, else its parent, and on upward while they lie within the root. -/
def searched (tree : FileTree) (path root : Path) : Noted (List Path) := do
  let start? := if ← tree.isDirectory path then some path else path.parent?
  return match start? with
    | none => []
    | some start => start.ancestors.takeWhile (·.startsWith root)

/-- The names that a project file could have, in the order they are tried. -/
def candidates (loader : Loader) (dirs : List Path) : List Path :=
  dirs.flatMap fun dir =>
    loader.settings.configurationNames.map fun name => dir.join (.ofString name)

/-- The nearest project file at or above a path and within the root. -/
def governing? (loader : Loader) (tree : FileTree) (path root : Path) : Noted (Option Path) := do
  tree.firstFile (loader.candidates (← searched tree path root))

/-- The baseline, with the typings that the runtime package declares. -/
def seededBaseline (loader : Loader) (tree : FileTree) (dir : Path) : Noted Options := do
  let package? ←
    if loader.findsPackages then Package.locate? tree loader.settings.runtimePackage dir
    else pure none
  return match package?.bind Package.typings with
    | some typings => Options.baseline.insert "types" (.array [.string typings.toString])
    | none => .baseline

/-- The options and root files that a project's own chain contributes: nothing at all,
with a warning, when there is a fault anywhere in it. -/
def contribution (tree : FileTree) (file : Path) (dir : Path) : Noted (Options × List Path) := do
  match ← Chain.files tree file with
  | .error fault =>
    Noted.warn fault.warning
    return (∅, [])
  | .ok chain =>
    return (Chain.options chain, ← (Selection.ofChain chain dir).rootFiles tree)

/-- The configuration of the project of a file, or of the global project. -/
def load (loader : Loader) (tree : FileTree) (file? : Option Path) (root : Path) :
    Noted Configuration := do
  let directory := (file?.bind Path.parent?).getD root
  let baseline ← loader.seededBaseline tree directory
  let (own, rootFiles) ← match file? with
    | none => pure (∅, [])
    | some file => contribution tree file directory
  return ⟨file?, directory, .layered [baseline, own, .forced], rootFiles⟩

end Loader

end ComponentProjects
