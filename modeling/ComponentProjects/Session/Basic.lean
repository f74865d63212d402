import ComponentProjects.Session.Engine

/-! A session binds a project to one live engine. The engine is replaced when the editor gives
a file another dialect than the engine has seen it in; if no new one comes up, the old
engine and the old snapshot stay. -/
namespace ComponentProjects

structure Session where
  key : ProjectKey
  host : Host
  held : Held
  handle : EngineHandle
  /-- The dialects the live engine last saw of files that were deleted since it started. -/
  retired : Table Path Dialect

/-- What came of an update, and the engine start it took, if any. -/
structure Update where
  outcome : Except StartFailure EngineHandle
  start? : Option EngineStart

namespace Session

def new (key : ProjectKey) (host : Host) (factory : EngineFactory) (tree : FileTree) :
    Noted (Except StartFailure Session × EngineStart) := do
  let (start, held) ← factory.start host tree .nothing
  return match factory.failure? with
    | some cause => (.error ⟨key, cause⟩, start)
    | none => (.ok ⟨key, host, held, ⟨factory.built, 0⟩, ∅⟩, start)

/-- A file that is known in one dialect and comes in another needs a new engine. -/
def needsRestart (previous? : Option Dialect) (next : Dialect) : Bool :=
  previous?.any (· ≠ next)

/-- The document the editor has given already: an editor's snapshot of the same version. -/
def alreadyPublished (s : Session) (d : Document) : Bool :=
  (s.held.tracked.get? d.path).any fun t => t.origin = .editor ∧ t.version = d.version

/-- The dialect the live engine knows a file in. -/
def knownDialect? (s : Session) (path : Path) : Option Dialect :=
  ((s.held.tracked.get? path).map Snapshot.dialect).or (s.retired.get? path)

def withTracked (s : Session) (tracked : Snapshots) : Session :=
  { s with held := { s.held with tracked } }

def putBack (tracked : Snapshots) (path : Path) (replaced? : Option Snapshot) : Snapshots :=
  match replaced? with
  | some replaced => tracked.publish replaced
  | none => tracked.erase path

/-- Replace the engine of a session whose new snapshot of a path is published. -/
def restart (s : Session) (factory : EngineFactory) (tree : FileTree) (path : Path)
    (replaced? : Option Snapshot) : Noted (Update × Session) := do
  let (start, held) ← factory.start s.host tree s.held
  return match factory.failure? with
    | some cause =>
      let tracked := putBack held.tracked path replaced?
      (⟨.error ⟨s.key, cause⟩, some start⟩, { s with held := { held with tracked } })
    | none =>
      let handle : EngineHandle := ⟨factory.built, s.handle.generation + 1⟩
      (⟨.ok handle, some start⟩, { s with held, handle, retired := ∅ })

def update (s : Session) (factory : EngineFactory) (tree : FileTree) (d : Document) :
    Noted (Update × Session) := do
  if s.alreadyPublished d then return (⟨.ok s.handle, none⟩, s)
  let snapshot ← Snapshot.ofDocument s.host.preprocess d .editor
  let published := s.withTracked (s.held.tracked.publish snapshot)
  if needsRestart (s.knownDialect? d.path) snapshot.dialect then
    published.restart factory tree snapshot.path (s.held.tracked.get? snapshot.path)
  else
    return (⟨.ok s.handle, none⟩,
      { published with retired := published.retired.erase snapshot.path })

/-- Stop tracking a document. Its dialect stays known to the live engine, and answers that
mention it are forgotten. -/
def delete (s : Session) (path : Path) : Session :=
  let retired := match s.held.tracked.get? path with
    | some gone => s.retired.insert gone.path gone.dialect
    | none => s.retired
  { s with held := ⟨s.held.tracked.erase path, s.held.imports.purge path⟩, retired }

def ask (s : Session) (tree : FileTree) (query : Query) : Noted (Answer × Session) := do
  let (answer, held) ← s.host.ask tree s.held query
  return (answer, { s with held })

end Session

end ComponentProjects
