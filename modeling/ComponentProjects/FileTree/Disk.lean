import ComponentProjects.FileTree.Basic
import ComponentProjects.Number.Power

/-! A directory tree as an operating system shows it: parent steps lead to the directory
that holds the one they stand in, and a path that goes on behind a file, be it only by a
slash, names nothing. There are no links. -/
namespace ComponentProjects

/-- A place in the tree: the names from the root down. -/
structure Location where
  names : List (List Char)
deriving DecidableEq, Repr, Inhabited

instance : Ranked Location where
  rank l := l.names.map fun name => name.map Char.toNat

inductive DiskEntry where
  | file (bytes : ByteArray)
  | directory

structure Disk where
  entries : Table Location DiskEntry
  /-- Where relative paths begin. -/
  current : Location

namespace Location

/-- The place of an absolute path without dots. -/
def ofPath (p : Path) : Location :=
  ⟨p.components.filterMap fun
    | .name word => some word
    | _ => none⟩

/-- The names that lead from a directory down to a place beneath it. -/
def below? (dir place : Location) : Option (List (List Char)) :=
  if dir.names.isPrefixOf place.names ∧ dir ≠ place then some (place.names.drop dir.names.length)
  else none

end Location

namespace Disk

/-- What is at a place. A place with something beneath it is a directory. -/
def found? (d : Disk) (l : Location) : Option DiskEntry :=
  match d.entries.entries.find? fun e => e.1 = l with
  | some (_, entry) => some entry
  | none => if d.entries.keys.any fun k => (l.below? k).isSome then some .directory else none

def isDirectoryAt (d : Disk) (l : Location) : Bool :=
  l.names.isEmpty || match d.found? l with
    | some .directory => true
    | _ => false

/-- Go on by one word, which takes a directory to stand in. -/
def step? (d : Disk) (l : Location) (word : List Char) : Option Location :=
  if d.isDirectoryAt l then
    match Component.ofSegment? word with
    | some .parent => some ⟨l.names.dropLast⟩
    | some (.name word) =>
      let next : Location := ⟨l.names ++ [word]⟩
      (d.found? next).map fun _ => next
    | _ => some l
  else none

/-- How many bytes a path may have. A longer one leads nowhere, whatever is there. -/
def greatestPathSize : Nat := 4095

def place? (d : Disk) (p : Path) : Option Location :=
  if p.text = [] ∨ greatestPathSize < p.toString.utf8ByteSize then none
  else if p.isAbsolute then (segments p.text).foldlM d.step? ⟨[]⟩
  else (segments p.text).foldlM d.step? d.current

def bytes? (d : Disk) (p : Path) : Option ByteArray :=
  match (d.place? p).bind d.found? with
  | some (.file bytes) => some bytes
  | _ => none

def text? (d : Disk) (p : Path) : Option String := (d.bytes? p).bind String.fromUTF8?

def isDirectory (d : Disk) (p : Path) : Bool :=
  match d.place? p with
  | some l => d.isDirectoryAt l
  | none => false

def extend (p : Path) (names : List (List Char)) : Path :=
  names.foldl (fun p name => p.join ⟨name⟩) p

/-- The files at and beneath a path, spelled from that path on. -/
def filesFrom (d : Disk) (p : Path) : List Path :=
  match d.place? p with
  | none => []
  | some l =>
    if d.isDirectoryAt l then
      Path.sorted <| d.entries.entries.filterMap fun (place, entry) =>
        match entry, l.below? place with
        | .file _, some names => some (extend p names)
        | _, _ => none
    else [p]

def subdirectories (d : Disk) (p : Path) : List Path :=
  match d.place? p with
  | none => []
  | some l =>
    let children := d.entries.keys.filterMap fun place => (l.below? place).bind List.head?
    let inside := children.filter fun name => d.isDirectoryAt ⟨l.names ++ [name]⟩
    (Table.ofList (inside.map fun name => (p.join ⟨name⟩, ()))).keys

/-- More than there are paths of a size that leads anywhere: with parent steps in it, any number
of paths lead to one file. -/
def tree (d : Disk) : FileTree where
  size := twoTo (8 * (greatestPathSize + 1))
  isFile p := .ask (.isFile p) (d.bytes? p).isSome
  contents? p := .ask (.contents p) (d.text? p)
  files dir endings := .ask (.files dir) ((d.filesFrom dir).filter (FileTree.admits endings))
  subdirectories dir := .ask (.subdirectories dir) (d.subdirectories dir)
  isDirectory p := .ask (.isDirectory p) (d.isDirectory p)

end Disk

end ComponentProjects
