import ComponentProjects.Path.Basic

/-! Path patterns of project files. A star is any run within a segment, a question mark
one character of it, and a segment of two stars any number of whole segments. Every text
is a pattern, however long it is. -/
namespace ComponentProjects

/-- What one part of a pattern takes. -/
inductive Glob.Mark where
  | char (c : Char)
  | one
  | run
  | segments
deriving DecidableEq, Repr

/-- Where a match may end: right here, or also before a slash and the rest of a line. -/
inductive Glob.Close where
  | here
  | beneath
deriving DecidableEq, Repr

structure Glob where
  marks : List Glob.Mark
  close : Glob.Close
  /-- The deepest directory that the literal front of the pattern names. -/
  base : Path
deriving Repr

namespace Glob

/-- The text with slashes for backslashes. -/
def slashed (text : List Char) : List Char := text.map fun c => if c = '\\' then '/' else c

def hasWildcard (segment : List Char) : Bool := segment.any fun c => c = '*' || c = '?'

def markOf (c : Char) : Mark :=
  if c = '*' then .run else if c = '?' then .one else .char c

/-- A segment's marks, with the slash that a segment other than the last ends in. The
segments of a double star bring their own slashes. -/
def marksOf : List (List Char) → List Mark
  | [] => []
  | word :: rest =>
    if word = ['*', '*'] then .segments :: marksOf rest
    else match rest with
      | [] => word.map markOf
      | _ => word.map markOf ++ .char '/' :: marksOf rest

/-- The segments ahead of the first wildcard, the last segment left out. -/
def literalFront (words : List (List Char)) : List (List Char) :=
  words.dropLast.takeWhile fun word => !hasWildcard word

def baseOf (words : List (List Char)) : Path :=
  match literalFront words with
  | [[]] => ⟨['/']⟩
  | front => ⟨joined front⟩

def compile (text : List Char) (close : Close) : Glob :=
  ⟨marksOf (segments text), close, baseOf (segments text)⟩

def absoluteText (dir : Path) (pattern : String) : List Char :=
  slashed (dir.join (.ofString pattern)).normal.text

/-- A last segment without a wildcard or a dot names a directory. -/
def namesDirectory (text : List Char) : Bool :=
  let last := (segments text).getLastD []
  !hasWildcard last && !last.contains '.'

/-- The pattern of an include entry; a directory stands for everything beneath it. -/
def ofInclude (dir : Path) (pattern : String) : Glob :=
  let text := absoluteText dir pattern
  compile (if namesDirectory text then text ++ "/**/*".toList else text) .here

def withoutClosingSlashes (text : List Char) : List Char :=
  (text.reverse.dropWhile (· = '/')).reverse

/-- The pattern of an exclude entry; it takes whatever lies beneath a match with it. -/
def ofExclude (dir : Path) (pattern : String) : Glob :=
  compile (withoutClosingSlashes (absoluteText dir pattern)) .beneath

end Glob

end ComponentProjects
