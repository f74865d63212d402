import ComponentProjects.Project.Key
import ComponentProjects.Session.Host

/-! Starting engines. An engine is a closed box: all there is to see of a start is what it asks
its host and whether it comes up. Engines are told apart by number. -/
namespace ComponentProjects

structure EngineHandle where
  engine : Nat
  /-- How many engines its session had before it. -/
  generation : Nat
deriving DecidableEq, Repr

/-- What the next start does: its questions, and the message it fails with, if it fails. -/
structure EngineFactory where
  queries : List Query
  failure? : Option String
  /-- How many engines came up so far. -/
  built : Nat

/-- One start: the answers it got and the engine's number, if one came up. -/
structure EngineStart where
  answers : List Answer
  engine? : Option Nat

/-- Why a session has no engine. -/
structure StartFailure where
  project : ProjectKey
  cause : String
deriving DecidableEq, Repr

def StartFailure.message (f : StartFailure) : String :=
  "Failed to start analysis engine for project " ++ f.project.display ++ ": " ++ f.cause

namespace EngineFactory

/-- Let an engine ask its questions and come up or fail. -/
def start (factory : EngineFactory) (host : Host) (tree : FileTree) (held : Held) :
    Noted (EngineStart × Held) := do
  let (answers, held) ← host.askAll tree held factory.queries
  return (⟨answers, if factory.failure?.isSome then none else some factory.built⟩, held)

def afterStart (factory : EngineFactory) : EngineFactory :=
  if factory.failure?.isSome then factory else { factory with built := factory.built + 1 }

end EngineFactory

end ComponentProjects
