import ComponentProjects.Import.Search

/-! Resolution with a memory. Every answer is kept, also that there is none, until the files
it mentions are purged. An answer that is a converted path is handed out as the
component file behind it. -/
namespace ComponentProjects

/-- A specifier and the file it stands in. -/
structure ImportRequest where
  specifier : String
  importer : Path
deriving DecidableEq, Repr

instance : Ranked ImportRequest where
  rank r := r.specifier.toList.map Char.toNat :: rank r.importer

structure ResolvedModule where
  file : Path
  /-- The ending the engine reads the file by. -/
  extension : String
  external : Bool
deriving DecidableEq, Repr

/-- The answers given so far. -/
abbrev ImportCache := Table ImportRequest (Option Resolution)

namespace ImportCache

def mentions (path : Path) (request : ImportRequest) (answer : Option Resolution) : Bool :=
  let hits := fun (p : Path) => decide (p.Same path) || decide (p.real.Same path)
  hits request.importer || answer.any fun r => hits r.path

/-- Forget every answer that mentions a path or the converted path of it. -/
def purge (cache : ImportCache) (path : Path) : ImportCache :=
  cache.filter fun request answer => !mentions path request answer

/-- The answer from memory, or else by a search that is then remembered. -/
def resolve (tree : FileTree) (options : Options) (request : ImportRequest)
    (cache : ImportCache) : Noted (Option Resolution × ImportCache) :=
  match cache.get? request with
  | some answer => return (answer, cache)
  | none => do
    let answer ← Import.search tree options request.specifier request.importer
    return (answer, cache.insert request answer)

end ImportCache

/-- The ending of a script file's path, which for a declaration file has two parts. -/
def scriptExtension (p : Path) : String :=
  if p.endsWith ".d.ts" then ".d.ts"
  else p.extension?.elim "" fun word => String.ofList ('.' :: word)

/-- The module that a resolution is handed out as. The dialect of a component is asked for,
which may change what the asker holds. -/
def Resolution.handOut (dialectOf : Path → σ → Noted (Dialect × σ)) (r : Resolution) (held : σ) :
    Noted (ResolvedModule × σ) :=
  if r.path.isConverted then do
    let (dialect, held) ← dialectOf r.path.real held
    return (⟨r.path.real, dialect.componentExtension, r.external⟩, held)
  else return (⟨r.path, scriptExtension r.path, r.external⟩, held)

/-- Resolve the specifiers of a file, one answer for each and in their order. -/
def resolveAll (tree : FileTree) (options : Options)
    (dialectOf : Path → σ → Noted (Dialect × σ)) (importer : Path) :
    List String → ImportCache → σ → Noted (List (Option ResolvedModule) × ImportCache × σ)
  | [], cache, held => return ([], cache, held)
  | specifier :: rest, cache, held => do
    let (answer, cache) ← cache.resolve tree options ⟨specifier, importer⟩
    let (entry, held) ← match answer with
      | none => pure (none, held)
      | some r => do
        let (found, held) ← r.handOut dialectOf held
        pure (some found, held)
    let (entries, cache, held) ← resolveAll tree options dialectOf importer rest cache held
    return (entry :: entries, cache, held)

end ComponentProjects
