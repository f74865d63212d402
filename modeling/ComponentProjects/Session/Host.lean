import ComponentProjects.Import.Resolver
import ComponentProjects.Project.Configuration
import ComponentProjects.Snapshot

/-! What an engine sees of a project. It asks questions of its host; some of them load files,
which are tracked from then on. -/
namespace ComponentProjects

/-- The part of a host that stays as it is. -/
structure Host where
  configuration : Configuration
  preprocess : Preprocessor
  newDocument : DocumentFactory

/-- The part of a host that its questions may add to. -/
structure Held where
  tracked : Snapshots
  imports : ImportCache

def Held.nothing : Held := ⟨∅, ∅⟩

inductive Query where
  | options
  | fileNames
  | version (path : Path)
  | snapshot (path : Path)
  | dialect (path : Path)
  | directory
  | resolve (specifiers : List String) (importer : Path)
  | isFile (path : Path)
  | contents (path : Path)
  | files (dir : Path) (endings : List String)
  | subdirectories (dir : Path)
  | isDirectory (path : Path)
deriving DecidableEq, Repr

inductive Answer where
  | options (options : Options)
  | paths (paths : List Path)
  | text (text : String)
  | snapshot (snapshot? : Option Snapshot)
  | dialect (dialect : Dialect)
  | path (path : Path)
  | modules (entries : List (Option ResolvedModule))
  | contents (text? : Option String)
  | flag (value : Bool)

namespace Host

/-- The tree with the converted paths of this host's components. -/
def view (host : Host) (tree : FileTree) : FileTree := tree.templated host.preprocess

/-- The snapshot behind either spelling of a path, loaded and tracked on first use. -/
def snapshot? (host : Host) (tree : FileTree) (path : Path) (tracked : Snapshots) :
    Noted (Option Snapshot × Snapshots) :=
  tracked.getOrLoad path.real
    (Snapshot.load? (host.view tree) host.preprocess host.newDocument path.real)

/-- The dialect of the path's snapshot, or else the one its extension says. -/
def dialect (host : Host) (tree : FileTree) (path : Path) (tracked : Snapshots) :
    Noted (Dialect × Snapshots) := do
  let (s?, tracked) ← host.snapshot? tree path tracked
  return (s?.elim (.ofPath path) Snapshot.dialect, tracked)

def version (host : Host) (tree : FileTree) (path : Path) (tracked : Snapshots) :
    Noted (String × Snapshots) := do
  let (s?, tracked) ← host.snapshot? tree path tracked
  return (s?.elim "" Snapshot.versionText, tracked)

def distinct (paths : List Path) : List Path :=
  paths.foldl (fun kept p => if kept.any fun q => decide (q.Same p) then kept else kept ++ [p]) []

/-- The root files and then the tracked ones, each once. -/
def fileNames (host : Host) (tracked : Snapshots) : List Path :=
  distinct (host.configuration.rootFiles ++ tracked.keys)

/-- The tracked text of a converted path; any other file as it is in the tree. -/
def contents? (host : Host) (tree : FileTree) (path : Path) (tracked : Snapshots) :
    Noted (Option String × Snapshots) := do
  if path.isConverted then
    let (s?, tracked) ← host.snapshot? tree path tracked
    return (s?.map Snapshot.text, tracked)
  else return (← (host.view tree).contents? path, tracked)

/-- A converted path is there also while its component is only tracked. -/
def isFile (host : Host) (tree : FileTree) (path : Path) (tracked : Snapshots) : Noted Bool :=
  if path.isConverted && tracked.contains path.real then return true
  else (host.view tree).isFile path

/-- Resolve a file's imports, with the dialects of components as this host has them. -/
def resolve (host : Host) (tree : FileTree) (specifiers : List String) (importer : Path)
    (held : Held) : Noted (List (Option ResolvedModule) × Held) := do
  let (entries, imports, tracked) ← resolveAll (host.view tree) host.configuration.options
    (host.dialect tree) importer specifiers held.imports held.tracked
  return (entries, ⟨tracked, imports⟩)

def track (held : Held) (work : Noted (α × Snapshots)) (answer : α → Answer) :
    Noted (Answer × Held) := do
  let (a, tracked) ← work
  return (answer a, { held with tracked })

def ask (host : Host) (tree : FileTree) (held : Held) : Query → Noted (Answer × Held)
  | .options => return (.options host.configuration.options, held)
  | .fileNames => return (.paths (host.fileNames held.tracked), held)
  | .version path => track held (host.version tree path held.tracked) .text
  | .snapshot path => track held (host.snapshot? tree path held.tracked) .snapshot
  | .dialect path => track held (host.dialect tree path held.tracked) .dialect
  | .directory => return (.path host.configuration.directory, held)
  | .resolve specifiers importer => do
    let (entries, held) ← host.resolve tree specifiers importer held
    return (.modules entries, held)
  | .isFile path => return (.flag (← host.isFile tree path held.tracked), held)
  | .contents path => track held (host.contents? tree path held.tracked) .contents
  | .files dir endings => return (.paths (← (host.view tree).files dir endings), held)
  | .subdirectories dir => return (.paths (← (host.view tree).subdirectories dir), held)
  | .isDirectory path => return (.flag (← (host.view tree).isDirectory path), held)

def askAll (host : Host) (tree : FileTree) (held : Held) : List Query → Noted (List Answer × Held)
  | [] => return ([], held)
  | query :: rest => do
    let (answer, held) ← host.ask tree held query
    let (answers, held) ← askAll host tree held rest
    return (answer :: answers, held)

end Host

end ComponentProjects
