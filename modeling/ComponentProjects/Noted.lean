import ComponentProjects.Path.Basic

/-! Results with notes. Work that looks at files keeps, beside its value, the questions
it put to the files and the warnings it gave, in order. The value never depends on
the notes. -/
namespace ComponentProjects

/-- What may be asked of a file tree. -/
inductive Question where
  | isFile (path : Path)
  | contents (path : Path)
  | files (dir : Path)
  | subdirectories (dir : Path)
  | isDirectory (path : Path)
deriving DecidableEq, Repr

/-- A question about one file's presence or contents. -/
def Question.isProbe : Question → Bool
  | .isFile _ | .contents _ => true
  | _ => false

inductive Warning where
  | unreadableConfiguration (path : Path)
  | circularConfiguration (path : Path)
  | invalidConfiguration (path : Path)
  | malformedManifest (package : String)
  | failedConversion (path : Path)
deriving DecidableEq, Repr

def Warning.message : Warning → String
  | .unreadableConfiguration path =>
    "Cannot read project configuration: " ++ path.toString ++ "; using baseline options"
  | .circularConfiguration path =>
    "Configuration " ++ path.toString ++ " extends itself; using baseline options"
  | .invalidConfiguration path => "Invalid project configuration " ++ path.toString
  | .malformedManifest package => "Ignoring malformed manifest for package '" ++ package ++ "'"
  | .failedConversion path =>
    "Preprocessing failed for " ++ path.toString ++ ", analyzing it as empty"

inductive Note where
  | asked (question : Question)
  | warned (warning : Warning)
deriving DecidableEq, Repr

structure Noted (α : Type u) where
  value : α
  notes : List Note

namespace Noted

def silent (value : α) : Noted α := ⟨value, []⟩

def andThen (x : Noted α) (f : α → Noted β) : Noted β :=
  let y := f x.value
  ⟨y.value, x.notes ++ y.notes⟩

instance : Monad Noted where
  pure := silent
  bind := andThen

def ask (question : Question) (answer : α) : Noted α := ⟨answer, [.asked question]⟩

def warn (warning : Warning) : Noted Unit := ⟨(), [.warned warning]⟩

def warnings (x : Noted α) : List Warning :=
  x.notes.filterMap fun
    | .warned warning => some warning
    | .asked _ => none

def questions (x : Noted α) : List Question :=
  x.notes.filterMap fun
    | .asked question => some question
    | .warned _ => none

/-- How many times a file's presence or contents was asked for. -/
def probes (x : Noted α) : Nat := x.questions.countP Question.isProbe

/-- The first answer of a search that goes on until there is one. -/
def firstSome (search : α → Noted (Option β)) : List α → Noted (Option β)
  | [] => pure none
  | a :: rest => do
    match ← search a with
    | some b => return some b
    | none => firstSome search rest

/-- The first answer of a search that goes from a directory upward. A path is not spelled
before the search gets to it. -/
def firstUpward (search : Path → Noted (Option β)) (dir : Path) : Noted (Option β) := do
  match ← search dir with
  | some b => return some b
  | none => firstSome (fun words => search (.ofReversed words)) dir.wordsAbove

@[simp] theorem value_pure (a : α) : (pure a : Noted α).value = a := rfl

@[simp] theorem notes_pure (a : α) : (pure a : Noted α).notes = [] := rfl

@[simp] theorem value_bind (x : Noted α) (f : α → Noted β) :
    (x >>= f).value = (f x.value).value := rfl

@[simp] theorem notes_bind (x : Noted α) (f : α → Noted β) :
    (x >>= f).notes = x.notes ++ (f x.value).notes := rfl

@[simp] theorem notes_map (f : α → β) (x : Noted α) : (f <$> x).notes = x.notes :=
  List.append_nil _

/-- What is found does not depend on the notes taken on the way. -/
theorem value_firstSome (search : α → Noted (Option β)) (as : List α) :
    (firstSome search as).value = as.findSome? fun a => (search a).value := by
  induction as with
  | nil => rfl
  | cons a rest ih =>
    simp only [firstSome, value_bind, List.findSome?_cons]
    split <;> simp_all

theorem firstSome_map (search : β → Noted (Option γ)) (f : α → β) (as : List α) :
    firstSome search (as.map f) = firstSome (fun a => search (f a)) as := by
  induction as with
  | nil => rfl
  | cons a rest ih => simp only [List.map_cons, firstSome, ih]

theorem firstUpward_eq (search : Path → Noted (Option β)) (dir : Path) :
    firstUpward search dir = firstSome search dir.ancestors := by
  simp only [firstUpward, Path.ancestors, Path.parents, firstSome, firstSome_map]

instance : LawfulMonad Noted :=
  LawfulMonad.mk' Noted
    (fun x => show andThen x silent = x by simp [andThen, silent])
    (fun a f => show andThen (silent a) f = f a by simp [andThen, silent])
    (fun x f g => show andThen (andThen x f) g = andThen x fun a => andThen (f a) g by
      simp [andThen, List.append_assoc])

end Noted

end ComponentProjects
