import ComponentProjects.FileTree.Basic

/-! Documents and the snapshots the engine reads in their place. -/
namespace ComponentProjects

structure Document where
  path : Path
  version : Int
  content : String
deriving DecidableEq, Repr

/-- How a document is made of a file that no editor has open. -/
abbrev DocumentFactory := Path → String → Document

/-- A file's own content under its own path, in version zero. -/
def DocumentFactory.plain : DocumentFactory := fun path content => ⟨path, 0, content⟩

inductive Origin where
  /-- Content that an editor gave. -/
  | editor
  /-- Content read when it was asked for. -/
  | disk
deriving DecidableEq, Repr

structure Snapshot where
  path : Path
  version : Int
  text : String
  dialect : Dialect
  origin : Origin
  /-- Whether conversion succeeded; so it does for plain scripts. -/
  converted : Bool
deriving DecidableEq, Repr

namespace Snapshot

/-- The snapshot of a document; that of a component is converted. -/
def ofDocument (preprocess : Preprocessor) (d : Document) (origin : Origin) : Noted Snapshot :=
  if d.path.isTemplated then do
    let c ← preprocess.convert d.path d.content
    return ⟨d.path, d.version, c.text, c.dialect, origin, c.ok⟩
  else return ⟨d.path, d.version, d.content, .ofPath d.path, origin, true⟩

/-- The snapshot of a file, if it can be read. -/
def load? (tree : FileTree) (preprocess : Preprocessor) (newDocument : DocumentFactory)
    (path : Path) : Noted (Option Snapshot) := do
  match ← tree.contents? path with
  | none => return none
  | some content => return some (← ofDocument preprocess (newDocument path content) .disk)

/-- The version the engine compares: those from disk are marked. -/
def versionText (s : Snapshot) : String :=
  match s.origin with
  | .editor => toString s.version
  | .disk => "disk:" ++ toString s.version

end Snapshot

/-- The tracked snapshots by path. -/
abbrev Snapshots := Table Path Snapshot

namespace Snapshots

/-- File a snapshot under its own path. -/
def publish (tracked : Snapshots) (s : Snapshot) : Snapshots := tracked.insert s.path s

/-- The tracked snapshot of a path, or else one that is loaded and tracked under the path. -/
def getOrLoad (tracked : Snapshots) (path : Path) (load : Noted (Option Snapshot)) :
    Noted (Option Snapshot × Snapshots) :=
  match tracked.get? path with
  | some s => return (some s, tracked)
  | none => do
    match ← load with
    | none => return (none, tracked)
    | some s => return (some s, tracked.insert path s)

end Snapshots

end ComponentProjects
