import ComponentProjects.Options
import ComponentProjects.Package

/-! The search for what an import specifier names, without any memory of earlier answers. -/
namespace ComponentProjects

/-- A file that a specifier names, and whether it was found among installed packages. -/
structure Resolution where
  path : Path
  external : Bool
deriving DecidableEq, Repr

namespace Import

/-- The endings that a specifier may leave out, in the order they are tried. -/
def impliedEndings : List String := [".ts", ".tsx", ".d.ts", ".js", ".jsx"]

/-- The endings that a specifier may carry. -/
def knownEndings : List String :=
  [".ts", ".tsx", ".d.ts", ".js", ".jsx", ".mjs", ".cjs", ".json"]

/-- A specifier may name the output of a source by these endings. -/
def sourceEndings : List (String × String) := [(".js", ".ts"), (".jsx", ".tsx")]

def sources (base : Path) : List Path :=
  sourceEndings.filterMap fun (output, source) =>
    (Text.beforeEnding? output.toList base.text).map fun stem => ⟨stem ++ source.toList⟩

/-- The files that a base may stand for, in the order they are tried. -/
def candidates (base : Path) : List Path :=
  sources base ++ (if knownEndings.any base.endsWith then [base] else []) ++
    impliedEndings.map base.withEnding

def asFile (tree : FileTree) (base : Path) : Noted (Option Path) :=
  tree.firstFile (candidates base)

def asEntry (tree : FileTree) (dir : Path) : Noted (Option Path) := do
  match (← tree.contents? (dir.join manifestName)).bind fun text => (declaredMain? text).join with
  | none => return none
  | some entry => asFile tree (dir.join (.ofString entry)).normal

def asDirectory (tree : FileTree) (dir : Path) : Noted (Option Path) := do
  match ← asEntry tree dir with
  | some path => return some path
  | none => asFile tree (dir.join (.ofString "index"))

def asFileOrDirectory (tree : FileTree) (base : Path) : Noted (Option Path) := do
  match ← asFile tree base with
  | some path => return some path
  | none => asDirectory tree base

/-- The name of a package's typings: the scope's mark goes, and its slash is written out. -/
def typingsName (specifier : String) : String :=
  match specifier.toList with
  | '@' :: name =>
    match name.dropWhile (· ≠ '/') with
    | _ :: rest => String.ofList (name.takeWhile (· ≠ '/') ++ ['_', '_'] ++ rest)
    | [] => String.ofList name
  | _ => specifier

def inPackages (tree : FileTree) (specifier : String) (dir : Path) : Noted (Option Path) := do
  let packages := dir.join packageDirectory
  if ← tree.isDirectory packages then
    match ← asFileOrDirectory tree (packages.join (.ofString specifier)) with
    | some path => return some path
    | none =>
      asFileOrDirectory tree
        ((packages.join (.ofString "@types")).join (.ofString (typingsName specifier)))
  else return none

def isRelative (specifier : String) : Bool :=
  specifier == "." || specifier == ".." || "./".toList.isPrefixOf specifier.toList ||
    "../".toList.isPrefixOf specifier.toList

/-- What a specifier names relative to the options' base directory. -/
def fromBaseUrl (tree : FileTree) (options : Options) (specifier : String) :
    Noted (Option Path) :=
  match options.baseUrl? with
  | none => return none
  | some base => asFileOrDirectory tree (base.join (.ofString specifier)).normal

/-- What a specifier in a file names: a path by itself, any other name relative to the
base directory, or else among the packages installed from the file's directory upward. -/
def search (tree : FileTree) (options : Options) (specifier : String) (importer : Path) :
    Noted (Option Resolution) := do
  let dir := importer.parent?.getD (.ofString "/")
  let path := Path.ofString specifier
  if isRelative specifier ∨ path.isAbsolute then
    return (← asFileOrDirectory tree (dir.join path).normal).map (⟨·, false⟩)
  else
    match ← fromBaseUrl tree options specifier with
    | some path => return some ⟨path, false⟩
    | none =>
      return (← Noted.firstUpward (inPackages tree specifier) dir).map (⟨·, true⟩)

end Import

end ComponentProjects
