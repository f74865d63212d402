import ComponentProjects.Table

/-! Slash-separated paths. A path is its text; what it names is its list of components,
so repeated slashes, inner dots and a closing slash do not tell two paths apart,
while a parent step is never resolved here. Paths rank by their components. -/
namespace ComponentProjects

structure Path where
  text : List Char
deriving DecidableEq, Repr, Inhabited

inductive Component where
  | root
  | current
  | parent
  | name (text : List Char)
deriving DecidableEq, Repr

/-- The words between the slashes, the empty ones included. -/
def segments : List Char → List (List Char)
  | [] => [[]]
  | c :: rest =>
    if c = '/' then [] :: segments rest
    else match segments rest with
      | [] => [[c]]
      | word :: words => (c :: word) :: words

def joined (words : List (List Char)) : List Char := List.intercalate ['/'] words

namespace Component

/-- What a word after the first names; empty words and dots name nothing. -/
def ofSegment? : List Char → Option Component
  | [] => none
  | ['.'] => none
  | ['.', '.'] => some .parent
  | word => some (.name word)

def text : Component → List Char
  | .root => ['/']
  | .current => ['.']
  | .parent => ['.', '.']
  | .name word => word

def rank : Component → List Nat
  | .root => [0]
  | .current => [1]
  | .parent => [2]
  | .name word => 3 :: word.map Char.toNat

end Component

namespace Path

def ofString (s : String) : Path := ⟨s.toList⟩

def toString (p : Path) : String := String.ofList p.text

instance : ToString Path := ⟨Path.toString⟩

def isAbsolute (p : Path) : Bool := p.text.head? = some '/'

/-- A leading slash is the root and a leading dot counts. -/
def components (p : Path) : List Component :=
  match segments p.text with
  | [] => []
  | [[]] => []
  | [] :: words => .root :: words.filterMap Component.ofSegment?
  | ['.'] :: words => .current :: words.filterMap Component.ofSegment?
  | words => words.filterMap Component.ofSegment?

instance : Ranked Path where
  rank p := p.components.map Component.rank

/-- The plainest spelling of a list of components. -/
def ofComponents : List Component → Path
  | .root :: rest => ⟨'/' :: joined (rest.map Component.text)⟩
  | parts => ⟨joined (parts.map Component.text)⟩

def Same (p q : Path) : Prop := p.components = q.components

instance (p q : Path) : Decidable (p.Same q) := inferInstanceAs (Decidable (_ = _))

def startsWith (p root : Path) : Bool := root.components.isPrefixOf p.components

def isBeneath (p dir : Path) : Bool := p.startsWith dir && !decide (p.Same dir)

def before (p q : Path) : Bool := decide (rank p < rank q)

/-- No path of the list is spelled ahead of one that ranks below it. -/
def sorted (paths : List Path) : List Path := paths.mergeSort fun p q => !q.before p

/-- Read the second path from the first one; an absolute path stands for itself. -/
def join (p q : Path) : Path :=
  if q.isAbsolute then q
  else if p.text = [] ∨ p.text.getLast? = some '/' then ⟨p.text ++ q.text⟩
  else ⟨p.text ++ '/' :: q.text⟩

/-- Text set directly behind the path, with no slash between. -/
def withEnding (p : Path) (ending : String) : Path := ⟨p.text ++ ending.toList⟩

def endsWith (p : Path) (ending : String) : Bool := ending.toList.isSuffixOf p.text

/-- A word that names nothing, unless it stands first. -/
def isVoid (word : List Char) : Bool := word = [] || word = ['.']

/-- The words of a path backwards, less the closing ones that name nothing. -/
def trimmed : List (List Char) → List (List Char)
  | word :: next :: rest => if isVoid word then trimmed (next :: rest) else word :: next :: rest
  | words => words

/-- The path spelled by words taken backwards; a lone empty word is the root. -/
def ofReversed : List (List Char) → Path
  | [[]] => ⟨['/']⟩
  | words => ⟨joined words.reverse⟩

/-- The words, taken backwards, of the paths that enclose one, nearest first. -/
def enclosing : List (List Char) → List (List (List Char))
  | [] => []
  | [word] => if word = [] then [] else [[]]
  | word :: next :: rest =>
    if isVoid word then enclosing (next :: rest)
    else trimmed (next :: rest) :: enclosing (next :: rest)

def wordsAbove (p : Path) : List (List (List Char)) := enclosing (segments p.text).reverse

def parents (p : Path) : List Path := p.wordsAbove.map ofReversed

/-- The path one component up; the root and the empty path have none. -/
def parent? (p : Path) : Option Path := p.wordsAbove.head?.map ofReversed

def ancestors (p : Path) : List Path := p :: p.parents

def fileName? (p : Path) : Option (List Char) :=
  match p.components.getLast? with
  | some (.name word) => some word
  | _ => none

/-- What follows the last dot of a name that does not begin with that dot. -/
def extensionOf (word : List Char) : Option (List Char) :=
  match word.reverse.dropWhile (· ≠ '.') with
  | _ :: _ :: _ => some (word.reverse.takeWhile (· ≠ '.')).reverse
  | _ => none

def extension? (p : Path) : Option (List Char) := p.fileName?.bind extensionOf

/-- One component laid on those already settled, the latest first. -/
def settle (stack : List Component) : Component → List Component
  | .current => stack
  | .parent =>
    match stack with
    | .name _ :: rest => rest
    | .root :: rest => .root :: rest
    | rest => .parent :: rest
  | part => part :: stack

/-- The path with its dots and parent steps worked out by the text alone. -/
def normal (p : Path) : Path := ofComponents (p.components.foldl settle []).reverse

end Path

end ComponentProjects
