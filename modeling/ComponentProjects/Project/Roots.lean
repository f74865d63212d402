import ComponentProjects.Project.Chain

/-! The root files of a project: the files it lists, and then the files it admits, taken
directory by directory of the include patterns. -/
namespace ComponentProjects

/-- What decides which files are roots. -/
structure Selection where
  listed : List Path
  included : List Glob
  excluded : List Glob

namespace Selection

/-- The endings of files that may be admitted. -/
def endings : List String := [".ts", ".tsx", ".d.ts", ".js", ".jsx", ".widget"]

/-- What is left out when a project does not say. -/
def defaultExcluded : List String := ["node_modules", "bower_components", "jspm_packages"]

/-- Everything is included by default, unless files are listed. -/
def ofChain (chain : List ProjectFile) (dir : Path) : Selection where
  listed := (Chain.listed? chain).getD []
  included :=
    match Chain.included? chain, Chain.listed? chain with
    | some patterns, _ => patterns
    | none, some _ => []
    | none, none => [Glob.ofInclude dir "**/*"]
  excluded :=
    (Chain.excluded? chain).getD (defaultExcluded.map (Glob.ofExclude dir)) ++
      ((Chain.options chain).string? "outDir").toList.map fun out =>
        Glob.ofExclude (.ofString out) ""

def admits (s : Selection) (p : Path) : Bool :=
  s.included.any (·.isMatch p) && !s.excluded.any (·.isMatch p)

/-- The patterns' directories, each once and in order of first appearance. -/
def bases (s : Selection) : List Path :=
  s.included.foldl (fun found g =>
    if found.any fun b => decide (b.Same g.base) then found else found ++ [g.base]) []

/-- Add what one directory has to admit and is not there yet, in ascending order. -/
def gather (tree : FileTree) (s : Selection) (roots : List Path) (base : Path) :
    Noted (List Path) := do
  let files ← tree.files base endings
  let fresh := files.filter fun p => s.admits p && !roots.any fun q => decide (q.Same p)
  return roots ++ Path.sorted fresh

def rootFiles (tree : FileTree) (s : Selection) : Noted (List Path) :=
  s.bases.foldlM (gather tree s) s.listed

end Selection

end ComponentProjects
