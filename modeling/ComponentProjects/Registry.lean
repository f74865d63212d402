import ComponentProjects.Session.Basic

/-! The registry keeps one live session for each project. Sessions are told apart by number, in
the order they came up; a closed one keeps its number and goes on working. -/
namespace ComponentProjects

inductive RegistryEvent where
  | created (key : ProjectKey) (rootFiles : Nat)
  | closed (key : ProjectKey)
deriving DecidableEq, Repr

structure Registry where
  root : Path
  loader : Loader
  preprocess : Preprocessor
  factory : EngineFactory
  /-- The number of each project's live session. -/
  live : Table ProjectKey Nat
  /-- Every session that came up, by number. -/
  sessions : List Session

/-- What came of asking for a session, with the engine start it took, if any. -/
structure Opening where
  outcome : Except StartFailure Nat
  events : List RegistryEvent
  start? : Option EngineStart

namespace Registry

def new (root : Path) (loader : Loader) (preprocess : Preprocessor) (factory : EngineFactory) :
    Registry := ⟨root, loader, preprocess, factory, ∅, []⟩

def session? (r : Registry) (number : Nat) : Option Session := r.sessions[number]?

/-- The key of the project that governs a path. -/
def keyOf (r : Registry) (tree : FileTree) (path root : Path) : Noted ProjectKey := do
  return .ofGoverning (← r.loader.governing? tree path root)

/-- Bring up a session and give it the next number. -/
def bringUp (r : Registry) (tree : FileTree) (key : ProjectKey) (configuration : Configuration)
    (newDocument : DocumentFactory) : Noted (Opening × Registry) := do
  let host : Host := ⟨configuration, r.preprocess, newDocument⟩
  let (result, start) ← Session.new key host r.factory tree
  let r := { r with factory := r.factory.afterStart }
  return match result with
    | .error failure => (⟨.error failure, [], some start⟩, r)
    | .ok session =>
      (⟨.ok r.sessions.length, [], some start⟩, { r with sessions := r.sessions ++ [session] })

/-- The live session of a key, or a new one. -/
def openKey (r : Registry) (tree : FileTree) (key : ProjectKey) (newDocument : DocumentFactory) :
    Noted (Opening × Registry) := do
  match r.live.get? key with
  | some number => return (⟨.ok number, [], none⟩, r)
  | none =>
    let configuration ← r.loader.load tree key.file? r.root
    let (opening, r) ← r.bringUp tree key configuration newDocument
    return match opening.outcome with
      | .error _ => (opening, r)
      | .ok number =>
        let event := .created key configuration.rootFiles.length
        ({ opening with events := [event] }, { r with live := r.live.insert key number })

/-- The session of the project that governs a path within the registry's root. -/
def openPath (r : Registry) (tree : FileTree) (path : Path) (newDocument : DocumentFactory) :
    Noted (Opening × Registry) := do
  r.openKey tree (← r.keyOf tree path r.root) newDocument

def lookup (r : Registry) (key : ProjectKey) : Option Nat := r.live.get? key

def close (r : Registry) (key : ProjectKey) : List RegistryEvent × Registry :=
  if r.live.contains key then ([.closed key], { r with live := r.live.erase key }) else ([], r)

def keys (r : Registry) : List ProjectKey := r.live.keys

def replace (r : Registry) (number : Nat) (session : Session) : Registry :=
  { r with sessions := r.sessions.set number session }

def update (r : Registry) (tree : FileTree) (number : Nat) (session : Session) (d : Document) :
    Noted (Update × Registry) := do
  let (update, session) ← session.update r.factory tree d
  let factory := if update.start?.isSome then r.factory.afterStart else r.factory
  return (update, { r.replace number session with factory })

def delete (r : Registry) (number : Nat) (session : Session) (path : Path) : Registry :=
  r.replace number (session.delete path)

def ask (r : Registry) (tree : FileTree) (number : Nat) (session : Session) (query : Query) :
    Noted (Answer × Registry) := do
  let (answer, session) ← session.ask tree query
  return (answer, r.replace number session)

end Registry

end ComponentProjects
