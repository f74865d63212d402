import ComponentProjects.Path.Basic
import ComponentProjects.Text.Ending

/-! Templated component files and their converted spelling. A component file Foo.widget
is shown to the engine as the script Foo.widget.ts, and these functions lead from one
spelling to the other. -/
namespace ComponentProjects.Path

def templatedExtension : List Char := "widget".toList

/-- The ending that makes a script of a component file's path. -/
def scriptEnding : List Char := ".ts".toList

/-- A component file, by its extension. -/
def isTemplated (p : Path) : Bool := p.extension? = some templatedExtension

/-- The component file's text in a converted path's text. The stem ahead of the
component ending is not empty and stays on one line. -/
def realText? (text : List Char) : Option (List Char) := do
  let real ← Text.beforeEnding? scriptEnding text
  let stem ← Text.beforeEnding? ('.' :: templatedExtension) real
  if stem = [] ∨ '\n' ∈ stem then none else some real

def isConverted (p : Path) : Bool := (realText? p.text).isSome

/-- The component file behind a converted path; every other path stands for itself. -/
def real (p : Path) : Path := (realText? p.text).elim p Path.mk

/-- A path that is not converted stands for itself. -/
theorem real_eq_self {p : Path} (h : p.isConverted = false) : p.real = p := by
  have none : realText? p.text = none := by simpa [isConverted] using h
  simp [real, none]

end ComponentProjects.Path
