import ComponentProjects.Path.Basic
import ComponentProjects.Text.Lowercase

/-! Project keys. A project goes by its governing file, and two spellings that differ only in
case name one project. -/
namespace ComponentProjects

/-- The governing file of a project; the global project has none. -/
structure ProjectKey where
  file? : Option Path
deriving DecidableEq, Repr

namespace ProjectKey

def global : ProjectKey := ⟨none⟩

/-- An empty path stands for the global project. -/
def ofPath (path : Path) : ProjectKey := if path.text = [] then global else ⟨some path⟩

def ofGoverning (file? : Option Path) : ProjectKey := file?.elim global ofPath

/-- The text that keys are compared by. -/
def folded (key : ProjectKey) : List Char := key.file?.elim [] fun path => Text.lowercase path.text

instance : Ranked ProjectKey where
  rank key := [key.folded.map Char.toNat]

def Same (a b : ProjectKey) : Prop := a.folded = b.folded

instance (a b : ProjectKey) : Decidable (a.Same b) := inferInstanceAs (Decidable (_ = _))

def isGlobal (key : ProjectKey) : Bool := key.file?.isNone

def display (key : ProjectKey) : String := key.file?.elim "<global>" Path.toString

end ProjectKey

end ComponentProjects
