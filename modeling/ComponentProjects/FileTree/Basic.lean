import ComponentProjects.Conversion
import ComponentProjects.Templated

/-! What can be asked of a tree of files. -/
namespace ComponentProjects

structure FileTree where
  /-- At least as many as there are paths, no two the same, that lead to a file. -/
  size : Nat
  isFile : Path → Noted Bool
  /-- The text of a file; nothing when it is missing or no text. -/
  contents? : Path → Noted (Option String)
  /-- The files at any depth beneath a directory that have one of the endings. -/
  files : Path → List String → Noted (List Path)
  subdirectories : Path → Noted (List Path)
  isDirectory : Path → Noted Bool

namespace FileTree

/-- An ending is looked for on the whole path; no endings let every path pass. -/
def admits (endings : List String) (p : Path) : Bool :=
  endings.isEmpty || endings.any p.endsWith

def file? (tree : FileTree) (p : Path) : Noted (Option Path) := do
  return if ← tree.isFile p then some p else none

def firstFile (tree : FileTree) (ps : List Path) : Noted (Option Path) :=
  Noted.firstSome tree.file? ps

/-- The tree in which each component file is also seen under its converted path. -/
def templated (tree : FileTree) (preprocess : Preprocessor) : FileTree :=
  { tree with
    size := 2 * tree.size
    isFile := fun p => tree.isFile p.real
    contents? := fun p =>
      if p.isConverted then do
        match ← tree.contents? p.real with
        | none => return none
        | some source => return some (← preprocess.convert p.real source).text
      else tree.contents? p }

end FileTree

end ComponentProjects
