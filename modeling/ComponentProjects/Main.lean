import ComponentProjects.FileTree.Disk
import ComponentProjects.Launch

/-! The inspector at the command line. A run is pure, so it is repeated on what is known of the
disk: whatever it asks about is looked up in between, until it asks about nothing new. -/
namespace ComponentProjects

/-- What is known of the disk, and the questions that were looked up for it. -/
structure Survey where
  disk : Disk
  asked : List Question

namespace Survey

/-- The place that a component leads to, were it there. -/
def next (l : Location) : Component → Location
  | .root => ⟨[]⟩
  | .current => l
  | .parent => ⟨l.names.dropLast⟩
  | .name word => ⟨l.names ++ [word]⟩

/-- The places that a path leads through, the last one first. -/
def trail (start : Location) (p : Path) : List Location :=
  p.components.foldl (fun places part => next (places.headD start) part :: places) [start]

def pathOf (l : Location) : Path := .ofComponents (.root :: l.names.map .name)

def withEntry (d : Disk) (l : Location) (entry : DiskEntry) : Disk :=
  { d with entries := d.entries.insert l entry }

/-- Look whether there is a file or a directory at a place. -/
def look (d : Disk) (l : Location) : IO Disk := do
  if (d.entries.get? l).isSome then return d
  try
    let there := (← IO.currentDir) / (pathOf l).toString
    return match (← there.metadata).type with
      | .file => withEntry d l (.file .empty)
      | .dir => withEntry d l .directory
      | _ => d
  catch _ => return d

/-- Read the file at a place, if there is one. One that cannot be read holds no text. -/
def read (d : Disk) (l : Location) : IO Disk := do
  match d.entries.get? l with
  | some (.file _) =>
    try return withEntry d l (.file (← IO.FS.readBinFile (pathOf l).toString))
    catch _ => return withEntry d l (.file ⟨#[0xff]⟩)
  | _ => return d

def namesIn (l : Location) : IO (List String) := do
  try
    let there := (← IO.currentDir) / (pathOf l).toString
    return (← there.readDir).toList.map (·.fileName)
  catch _ => return []

/-- Look at what is directly beneath a place. -/
def lookInside (d : Disk) (l : Location) : IO (Disk × List Location) := do
  let inside := (← namesIn l).map fun name => (⟨l.names ++ [name.toList]⟩ : Location)
  return (← inside.foldlM look d, inside)

partial def lookBeneath (d : Disk) (l : Location) : IO Disk := do
  let (d, inside) ← lookInside d l
  (inside.filter d.isDirectoryAt).foldlM lookBeneath d

def lookUp (d : Disk) (question : Question) : IO Disk := do
  let follow := fun (p : Path) => do
    let places := trail d.current p
    return (← places.foldlM look d, places.headD d.current)
  match question with
  | .isFile p | .isDirectory p => return (← follow p).1
  | .contents p => do
    let (d, l) ← follow p
    read d l
  | .files p => do
    let (d, l) ← follow p
    lookBeneath d l
  | .subdirectories p => do
    let (d, l) ← follow p
    return (← lookInside d l).1

/-- Repeat some work until it asks about nothing new. -/
partial def settle (work : FileTree → Noted α) (s : Survey) : IO (Noted α) := do
  let done := work s.disk.tree
  let fresh := (done.questions.filter (!s.asked.contains ·)).eraseDups
  if fresh.isEmpty then return done
  settle work ⟨← fresh.foldlM lookUp s.disk, s.asked ++ fresh⟩

end Survey

def settingsHome? : IO (Option Path) := do
  let named? := (← IO.getEnv "XDG_CONFIG_HOME").map Path.ofString
  let home? := (← IO.getEnv "HOME").map fun home => (Path.ofString home).join (.ofString ".config")
  return (named?.filter Path.isAbsolute).or home?

/-- Run the inspector, print what it has to say and give its exit status. -/
def runInspector (arguments : List String) : IO UInt32 := do
  let current := Path.ofString (← IO.currentDir).toString
  let place : Surroundings := ⟨current, ← settingsHome?⟩
  let run := fun tree => RunResult.run tree place arguments
  let done ← Survey.settle run ⟨⟨∅, .ofPath current⟩, []⟩
  IO.print done.value.output
  IO.eprint done.value.complaint
  if done.value.showsWarnings then
    for warning in done.warnings do
      IO.eprintln ("warning: " ++ warning.message)
  return done.value.status.toUInt32

end ComponentProjects

def main (arguments : List String) : IO UInt32 := ComponentProjects.runInspector arguments
