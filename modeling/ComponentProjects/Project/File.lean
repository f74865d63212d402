import ComponentProjects.Json.Decode
import ComponentProjects.Json.Relaxed
import ComponentProjects.Options

/-! One project file as written. -/
namespace ComponentProjects

structure ProjectFile where
  path : Path
  options : Options
  /-- The file that this one builds on. -/
  base? : Option String
  listed? : Option (List String)
  included? : Option (List String)
  excluded? : Option (List String)

namespace ProjectFile

def fieldNames : List String := ["compilerOptions", "extends", "files", "include", "exclude"]

/-- The directory that the file's own paths are read from. -/
def directory (file : ProjectFile) : Path := file.path.parent?.getD (.ofString "/")

/-- The record takes one level of the nesting that is allowed. -/
def optionsDepth : Nat := Json.Outline.greatestDepth - 1

/-- Read a project file. Only the options have a default; null stands for no entry in
the others, but not for the options. -/
def ofText? (path : Path) (text : String) : Option ProjectFile := do
  let outline ← Json.Outline.ofText? (Json.Relaxed.plain text.toList)
  match ← outline.record? fieldNames with
  | [options, base, files, included, excluded] =>
    let options ← match options with
      | none => some ∅
      | some options => options.table? optionsDepth
    return {
      path, options
      base? := ← Json.Outline.optional? Json.Outline.string? base
      listed? := ← Json.Outline.optional? Json.Outline.strings? files
      included? := ← Json.Outline.optional? Json.Outline.strings? included
      excluded? := ← Json.Outline.optional? Json.Outline.strings? excluded }
  | _ => none

/-- The options that hold a path, read from the directory of the file that sets them. -/
def pathOptions : List String := ["baseUrl", "rootDir", "outDir"]

/-- A path of the file, worked out from the file's directory. -/
def resolve (file : ProjectFile) (path : String) : Path :=
  (file.directory.join (.ofString path)).normal

def settleOption (file : ProjectFile) (options : Options) (key : String) : Options :=
  match options.string? key with
  | some path => options.insert key (.string (file.resolve path).toString)
  | none => options

/-- The file's options with their paths worked out. -/
def settledOptions (file : ProjectFile) : Options :=
  pathOptions.foldl file.settleOption file.options

end ProjectFile

end ComponentProjects
