import ComponentProjects.Glob.Match
import ComponentProjects.Package
import ComponentProjects.Project.File

/-! Project files that build on one another. The chain is the list of files from the one asked
for down to the one that builds on none. A nearer file's options win one by one; its
lists of files and patterns replace those of the files below it as a whole. -/
namespace ComponentProjects

inductive ChainFault where
  | unreadable (path : Path)
  | circular (path : Path)
  | invalid (path : Path)
deriving DecidableEq, Repr

def ChainFault.warning : ChainFault → Warning
  | .unreadable path => .unreadableConfiguration path
  | .circular path => .circularConfiguration path
  | .invalid path => .invalidConfiguration path

namespace Chain

/-- A file under the name itself or under the name with the project files' ending. -/
def named? (tree : FileTree) (path : Path) : Noted (Option Path) :=
  tree.firstFile [path, path.withEnding ".json"]

/-- A project file published in the packages of one directory. -/
def published? (tree : FileTree) (name : String) (dir : Path) : Noted (Option Path) := do
  let candidate := (dir.join packageDirectory).join (.ofString name)
  match ← named? tree candidate with
  | some path => return some path
  | none => named? tree (candidate.join (.ofString "tsconfig.json"))

/-- The file that a name leads to: a path when it begins with a dot or a slash, else a
published file, looked for from the directory upward. -/
def base? (tree : FileTree) (name : String) (dir : Path) : Noted (Option Path) :=
  if name.toList.head? = some '.' ∨ (Path.ofString name).isAbsolute then
    named? tree (dir.join (.ofString name)).normal
  else Noted.firstUpward (published? tree name) dir

/-- Follow a chain for a number of files, past the files already visited, which are told by
the components of their paths. -/
def follow (tree : FileTree) :
    Nat → List (List Component) → Path → Noted (Except ChainFault (List ProjectFile))
  | 0, _, path => return .error (.circular path)
  | more + 1, visited, path => do
    let here := path.components
    if here ∈ visited then return .error (.circular path)
    match ← tree.contents? path with
    | none => return .error (.unreadable path)
    | some text =>
      match ProjectFile.ofText? path text with
      | none => return .error (.invalid path)
      | some file =>
        match file.base? with
        | none => return .ok [file]
        | some name =>
          match ← base? tree name file.directory with
          | none => return .error (.unreadable (file.directory.join (.ofString name)))
          | some next =>
            match ← follow tree more (here :: visited) next with
            | .error fault => return .error fault
            | .ok files => return .ok (file :: files)

/-- The chain from a file on. It holds no path twice, so the tree's size bounds it. -/
def files (tree : FileTree) (path : Path) : Noted (Except ChainFault (List ProjectFile)) :=
  follow tree (tree.size + 1) [] path

/-- The options of a chain, those of the files further down laid first. -/
def options (chain : List ProjectFile) : Options :=
  .layered (chain.reverse.map ProjectFile.settledOptions)

def listed? (chain : List ProjectFile) : Option (List Path) :=
  chain.findSome? fun file => file.listed?.map (·.map file.resolve)

def included? (chain : List ProjectFile) : Option (List Glob) :=
  chain.findSome? fun file => file.included?.map (·.map (Glob.ofInclude file.directory))

def excluded? (chain : List ProjectFile) : Option (List Glob) :=
  chain.findSome? fun file => file.excluded?.map (·.map (Glob.ofExclude file.directory))

end Chain

end ComponentProjects
