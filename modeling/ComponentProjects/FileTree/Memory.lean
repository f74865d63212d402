import ComponentProjects.FileTree.Basic

/-! Files held in memory. Directories are implied by the files beneath them, and the
questions about single files are counted. -/
namespace ComponentProjects

structure MemoryFiles where
  files : Table Path String
  probes : Nat

namespace MemoryFiles

def ofList (files : List (Path × String)) : MemoryFiles := ⟨.ofList files, 0⟩

def insert (m : MemoryFiles) (path : Path) (text : String) : MemoryFiles :=
  { m with files := m.files.insert path text }

def remove (m : MemoryFiles) (path : Path) : MemoryFiles :=
  { m with files := m.files.erase path }

/-- Count what a piece of work asked. -/
def charge (m : MemoryFiles) (work : Noted α) : MemoryFiles :=
  { m with probes := m.probes + work.probes }

def beneath (files : Table Path String) (dir : Path) : List Path :=
  files.keys.filter (·.isBeneath dir)

/-- The directory that a file lies in directly beneath another one, if it lies deeper. -/
def firstStep? (dir path : Path) : Option Path :=
  match path.components.drop dir.components.length with
  | first :: _ :: _ => some (dir.join (.ofComponents [first]))
  | _ => none

def directories (files : Table Path String) (dir : Path) : List Path :=
  let inside := files.keys.filter (·.startsWith dir)
  (Table.ofList ((inside.filterMap (firstStep? dir)).map fun d => (d, ()))).keys

def treeOf (files : Table Path String) : FileTree where
  size := files.size
  isFile p := .ask (.isFile p) (files.contains p)
  contents? p := .ask (.contents p) (files.get? p)
  files dir endings := .ask (.files dir) ((beneath files dir).filter (FileTree.admits endings))
  subdirectories dir := .ask (.subdirectories dir) (directories files dir)
  isDirectory p := .ask (.isDirectory p) (files.keys.any (·.isBeneath p))

def tree (m : MemoryFiles) : FileTree := treeOf m.files

end MemoryFiles

end ComponentProjects
