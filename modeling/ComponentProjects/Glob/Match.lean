import ComponentProjects.Glob.Basic

/-! What a glob takes. Paths are matched by their text, with a backslash read as a slash. A
pattern is tried on all endings of a text at once, mark by mark from the last one, so
that no ending is tried twice; isMatch_eq says what this comes to. -/
namespace ComponentProjects.Glob

namespace Close

def accepts : Close → List Char → Bool
  | _, [] => true
  | .here, _ :: _ => false
  | .beneath, c :: rest => c = '/' && !rest.contains '\n'

end Close

/-- After any run of characters other than a slash. -/
def afterRun (next : List Char → Bool) : List Char → Bool
  | [] => next []
  | c :: rest => next (c :: rest) || (c ≠ '/' && afterRun next rest)

/-- After any number of whole segments; the flag says that a segment begins here. -/
def afterSegments (next : List Char → Bool) : Bool → List Char → Bool
  | start, [] => start && next []
  | start, c :: rest => (start && next (c :: rest)) || afterSegments next (c = '/') rest

def afterOne (test : Char → Bool) (next : List Char → Bool) : List Char → Bool
  | [] => false
  | c :: rest => test c && next rest

/-- What a mark takes of a text ahead of what comes next. -/
def Mark.takes (next : List Char → Bool) : Mark → List Char → Bool
  | .char c => afterOne (c = ·) next
  | .one => afterOne (· ≠ '/') next
  | .run => afterRun next
  | .segments => afterSegments next true

/-- Whether marks take a text up to where a match may end. -/
def takes (close : Close) : List Mark → List Char → Bool
  | [] => close.accepts
  | mark :: marks => mark.takes (takes close marks)

/-- A text and what is left of it behind each of its characters. -/
def endings : List Char → List (List Char)
  | [] => [[]]
  | c :: rest => (c :: rest) :: endings rest

/-! A list of verdicts has one for each ending of a text. -/

def verdictsAfterOne (test : Char → Bool) : List Char → List Bool → List Bool
  | c :: rest, _ :: next => (test c && next.headD false) :: verdictsAfterOne test rest next
  | _, _ => [false]

def verdictsAfterRun : List Char → List Bool → List Bool
  | c :: rest, here :: next =>
    let later := verdictsAfterRun rest next
    (here || (c ≠ '/' && later.headD false)) :: later
  | _, next => next

/-- The verdicts behind the segment that is under way. -/
def verdictsBeyondSlash : List Char → List Bool → List Bool
  | c :: rest, _ :: next =>
    let later := verdictsBeyondSlash rest next
    ((c = '/' && next.headD false) || later.headD false) :: later
  | _, _ => [false]

def Mark.verdicts (text : List Char) (next : List Bool) : Mark → List Bool
  | .char c => verdictsAfterOne (c = ·) text next
  | .one => verdictsAfterOne (· ≠ '/') text next
  | .run => verdictsAfterRun text next
  | .segments => List.zipWith (· || ·) next (verdictsBeyondSlash text next)

def verdicts (close : Close) (text : List Char) : List Mark → List Bool
  | [] => (endings text).map close.accepts
  | mark :: marks => mark.verdicts text (verdicts close text marks)

def isMatch (g : Glob) (p : Path) : Bool :=
  (verdicts g.close (slashed p.text) g.marks).headD false

@[simp] theorem head?_endings (text : List Char) : (endings text).head? = some text := by
  cases text <;> rfl

theorem verdictsAfterOne_eq (test : Char → Bool) (next : List Char → Bool) (text : List Char) :
    verdictsAfterOne test text ((endings text).map next) =
      (endings text).map (afterOne test next) := by
  induction text with
  | nil => rfl
  | cons c rest ih => simp [endings, verdictsAfterOne, afterOne, ih]

theorem verdictsAfterRun_eq (next : List Char → Bool) (text : List Char) :
    verdictsAfterRun text ((endings text).map next) = (endings text).map (afterRun next) := by
  induction text with
  | nil => rfl
  | cons c rest ih => simp [endings, verdictsAfterRun, afterRun, ih]

theorem afterSegments_true (next : List Char → Bool) (text : List Char) :
    afterSegments next true text = (next text || afterSegments next false text) := by
  cases text <;> simp [afterSegments]

theorem verdictsBeyondSlash_eq (next : List Char → Bool) (text : List Char) :
    verdictsBeyondSlash text ((endings text).map next) =
      (endings text).map (afterSegments next false) := by
  induction text with
  | nil => rfl
  | cons c rest ih =>
    by_cases slash : c = '/' <;>
      simp [endings, verdictsBeyondSlash, afterSegments, afterSegments_true, ih, slash]

theorem Mark.verdicts_eq (mark : Mark) (next : List Char → Bool) (text : List Char) :
    mark.verdicts text ((endings text).map next) = (endings text).map (mark.takes next) := by
  cases mark with
  | char c => exact verdictsAfterOne_eq _ next text
  | one => exact verdictsAfterOne_eq _ next text
  | run => exact verdictsAfterRun_eq next text
  | segments =>
    have both := funext (afterSegments_true next)
    simp [verdicts, verdictsBeyondSlash_eq, takes, List.zipWith_map, both]

theorem verdicts_eq (close : Close) (text : List Char) (marks : List Mark) :
    verdicts close text marks = (endings text).map (takes close marks) := by
  induction marks with
  | nil => rfl
  | cons mark marks ih => rw [verdicts, ih, Mark.verdicts_eq]; rfl

theorem isMatch_eq (g : Glob) (p : Path) :
    g.isMatch p = takes g.close g.marks (slashed p.text) := by
  simp [isMatch, verdicts_eq]

end ComponentProjects.Glob
