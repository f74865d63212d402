import ComponentProjects.Proofs.Import.Spelling
import ComponentProjects.Proofs.Registry.Ledger

/-! When two spellings of a path lead to one session. The search for a project goes by components
and finds one file under either spelling, but it spells that file the way the path was spelled, and
keys go by the text. -/
namespace ComponentProjects

variable {tree : FileTree} {p q root : Path} {loader : Loader}

namespace Path

theorem Same.startsWith_eq (same : p.Same q) (dir : Path) : p.startsWith dir = q.startsWith dir :=
  congrArg dir.components.isPrefixOf same

/-- One slash more at the end of a path that has none there. -/
structure ClosedBy (p q : Path) : Prop where
  named : p.text ≠ []
  bare : p.text.getLast? ≠ some '/'
  text : q.text = p.text ++ ['/']

namespace ClosedBy

theorem same (closed : p.ClosedBy q) : p.Same q := by
  have parts := components_append_slash closed.named []
  rw [Component.behind_nil, List.append_nil, ← closed.text] at parts
  exact parts.symm

/-- The slash stands where joining would have put one. -/
theorem join_eq (closed : p.ClosedBy q) (r : Path) : p.join r = q.join r := by
  have fronts : p.front = q.front := by
    simp [front, closed.text, closed.named, closed.bare]
  cases absolute : r.isAbsolute with
  | true => rw [join_of_absolute absolute, join_of_absolute absolute]
  | false => rw [join_of_relative absolute, join_of_relative absolute, fronts]

theorem parents_eq (closed : p.ClosedBy q) : p.parents = q.parents := by
  have words : (segments q.text).reverse = [] :: (segments p.text).reverse := by
    rw [closed.text, segments_append_slash]
    simp [segments]
  obtain ⟨word, rest, found⟩ := exists_segments_eq_cons p.text
  obtain ⟨last, others, parted⟩ := List.exists_cons_of_ne_nil
    (show (segments p.text).reverse ≠ [] by simp [found])
  rw [parents, parents, wordsAbove, wordsAbove, words, parted]
  rfl

end ClosedBy

end Path

namespace Loader

/-- The directory that a search for a path's project begins with. -/
def start? (tree : FileTree) (p : Path) : Option Path :=
  if (tree.isDirectory p).value then some p else p.parent?

/-- The project file that one directory has. -/
def file? (loader : Loader) (tree : FileTree) (dir : Path) : Option Path :=
  (loader.settings.configurationNames.map fun name => dir.join (.ofString name)).find?
    fun candidate => (tree.isFile candidate).value

theorem value_governing? (loader : Loader) (tree : FileTree) (p root : Path) :
    (loader.governing? tree p root).value =
      ((start? tree p).elim [] fun start => start.ancestors.takeWhile (·.startsWith root)).findSome?
        (loader.file? tree) := by
  rw [governing?, Noted.value_bind, Import.value_firstFile, candidates, List.find?_flatMap]
  unfold searched start?
  simp only [Noted.value_bind]
  cases (if (tree.isDirectory p).value = true then some p else p.parent?) <;> rfl

theorem forall₂_takeWhile {ps qs : List Path} (along : List.Forall₂ Path.Same ps qs) (root : Path) :
    List.Forall₂ Path.Same (ps.takeWhile (·.startsWith root))
      (qs.takeWhile (·.startsWith root)) := by
  induction along with
  | nil => exact .nil
  | @cons p q ps qs same _ ih =>
    rw [List.takeWhile_cons, List.takeWhile_cons, same.startsWith_eq root]
    split
    · exact .cons same ih
    · exact .nil

theorem start?_same (componentwise : tree.Componentwise) (same : p.Same q) :
    Option.Rel Path.Same (start? tree p) (start? tree q) := by
  rw [start?, start?, componentwise.isDirectory p q same]
  split
  · exact .some same
  · exact same.parent?

theorem file?_same (componentwise : tree.Componentwise) (loader : Loader) (same : p.Same q) :
    Option.Rel Path.Same (loader.file? tree p) (loader.file? tree q) :=
  rel_find?_map (fun name => same.join (.ofString name))
    (fun name => componentwise.isFile _ _ (same.join (.ofString name))) _

/-- One project file governs a path, however the path is spelled. -/
theorem governing?_same (componentwise : tree.Componentwise) (loader : Loader) (same : p.Same q)
    (root : Path) : Option.Rel Path.Same (loader.governing? tree p root).value
      (loader.governing? tree q root).value := by
  have start := start?_same componentwise same
  rw [value_governing?, value_governing?]
  generalize start? tree p = a?, start? tree q = b? at start ⊢
  cases start with
  | none => exact .none
  | some same =>
    exact rel_findSome? (forall₂_takeWhile same.ancestors root) fun _ _ =>
      file?_same componentwise loader

/-- A closing slash does not even show in the spelling of the project file. -/
theorem governing?_closed (componentwise : tree.Componentwise) (loader : Loader)
    (closed : p.ClosedBy q) (root : Path) :
    (loader.governing? tree p root).value = (loader.governing? tree q root).value := by
  have files : loader.file? tree p = loader.file? tree q := by
    simp only [file?, closed.join_eq]
  have parent : p.parent? = q.parent? := by
    rw [Path.parent?, Path.parent?, ← List.head?_map, ← List.head?_map]
    exact congrArg List.head? closed.parents_eq
  rw [value_governing?, value_governing?, start?, start?,
    componentwise.isDirectory p q closed.same, parent]
  split
  · simp only [Option.elim_some, Path.ancestors, List.takeWhile_cons, closed.parents_eq,
      closed.same.startsWith_eq root]
    split
    · rw [List.findSome?_cons, List.findSome?_cons, files]
    · rfl
  · rfl

end Loader

theorem ProjectKey.file?_ofGoverning {a? b? : Option Path} (files : Option.Rel Path.Same a? b?) :
    Option.Rel Path.Same (ofGoverning a?).file? (ofGoverning b?).file? := by
  cases files with
  | none => exact .none
  | @some a b same =>
    simp only [ofGoverning, Option.elim_some, ofPath, same.text_eq_nil_iff]
    split
    · exact .none
    · exact .some same

namespace Registry

variable {m l : Moment} {before later all : List Moment} {preprocess : Preprocessor}
  {key : ProjectKey} {number : Nat}

/-- None of some moments closes the session of a key. -/
def Unclosed (key : ProjectKey) (later : List Moment) : Prop :=
  ∀ e ∈ later, ∀ closed, .closed closed ∈ e.events → ¬ closed.Same key

theorem Happens.stays {r : Registry} (happens : Happens r m)
    (unclosed : ∀ closed, .closed closed ∈ m.events → ¬ closed.Same key)
    (held : r.live.get? key = some number) : m.registry.live.get? key = some number := by
  cases happens with
  | quiet live => exact live ▸ held
  | created opened rootFiles new live =>
    have apart : ¬ opened.Same key := fun same => by
      cases new.symm.trans ((get?_live_congr _ same).trans held)
    rw [live, get?_live_insert, if_neg apart]
    exact held
  | closed dropped gone had live size announced =>
    have apart := unclosed dropped (announced ▸ List.mem_singleton_self _)
    rw [live, get?_live_erase, if_neg apart]
    exact held

theorem Course.moved_inv (course : Course root loader preprocess (m :: l :: before)) :
    Course root loader preprocess (l :: before) ∧ ∃ move, m = l.next move := by
  cases course with
  | moved course move => exact ⟨course, move, rfl⟩

theorem Course.of_append (course : Course root loader preprocess (later ++ l :: before)) :
    Course root loader preprocess (l :: before) := by
  induction later with
  | nil => exact course
  | cons e later ih =>
    obtain ⟨k, earlier, found⟩ := List.exists_cons_of_ne_nil
      (show later ++ l :: before ≠ [] by simp)
    rw [List.cons_append, found] at course
    rw [found] at ih
    exact ih course.moved_inv.1

/-- A live session stays as long as nothing closes it. -/
theorem Course.stays (course : Course root loader preprocess (m :: before))
    (since : m :: before = later ++ l :: all) (unclosed : Unclosed key later)
    (held : l.registry.live.get? key = some number) : m.registry.live.get? key = some number := by
  induction later generalizing m before with
  | nil =>
    cases since
    exact held
  | cons e later ih =>
    rw [List.cons_append] at since
    obtain ⟨rfl, rest⟩ := List.cons.inj since
    obtain ⟨own, others⟩ := List.forall_mem_cons.mp unclosed
    cases before with
    | nil => simp at rest
    | cons k earlier =>
      obtain ⟨prior, move, rfl⟩ := course.moved_inv
      exact (k.next_happens move).stays own (ih prior rest others)

/-- The key that a path is asked for under. -/
def keyFor (loader : Loader) (tree : FileTree) (root p : Path) : ProjectKey :=
  .ofGoverning (loader.governing? tree p root).value

theorem live_of_opened {opened : Opening × Registry} {r : Registry} (opens : r.Opens key opened)
    (brought : opened.1.outcome = .ok number) : opened.2.live.get? key = some number := by
  cases opens with
  | again other live =>
    cases brought
    exact live
  | created new up rootFiles start s fresh =>
    cases brought
    exact (get?_live_insert r.live).trans (if_pos rfl)
  | refused => cases brought

theorem Course.opens?_openPath (course : Course root loader preprocess (m :: before))
    (queries : List Query) (failure? : Option String) (newDocument : DocumentFactory) :
    Move.opens? m.registry (.openPath tree queries failure? p newDocument) =
      some (keyFor loader tree root p, failure?) := by
  obtain ⟨workspace, finding⟩ := course.root_eq
  simp only [Move.opens?, keyOf, workspace, finding]
  rfl

/-- Spellings of one path are governed by one project file. Asking for them one after the other
gives one session just when this file is spelled alike, up to its letters' case. -/
theorem Course.same_session_iff_spelled_alike {files : Table Path String} {queries : List Query}
    {failure? : Option String} {newDocument : DocumentFactory} (same : p.Same q)
    (course : Course root loader preprocess (m :: before))
    (since : m :: before = later ++
      l.next (.openPath (MemoryFiles.treeOf files) queries failure? p newDocument) :: l :: all)
    (opened : (l.next (.openPath (MemoryFiles.treeOf files) queries failure? p newDocument)).reply =
      .opened (.ok number))
    (unclosed : Unclosed (keyFor loader (MemoryFiles.treeOf files) root p) later) :
    let key := keyFor loader (MemoryFiles.treeOf files) root
    Option.Rel Path.Same (key p).file? (key q).file? ∧ (p.ClosedBy q → key p = key q) ∧
    ∀ others failing? documents,
      (m.next (.openPath (MemoryFiles.treeOf files) others failing? q documents)).reply =
        .opened (.ok number) ↔ (key p).Same (key q) := by
  intro key
  have componentwise := MemoryFiles.componentwise files
  have live : m.registry.live.get? (key p) = some number := by
    have first : Course root loader preprocess (l :: all) := (since ▸ course).of_append.moved_inv.1
    obtain ⟨_, brought, next, opens⟩ := l.next_opening
      (first.opens?_openPath (p := p) queries failure? newDocument)
    rw [next] at opened since
    exact course.stays since unclosed (live_of_opened opens (Reply.opened.inj opened))
  refine ⟨ProjectKey.file?_ofGoverning (loader.governing?_same componentwise same root),
    fun closed => congrArg ProjectKey.ofGoverning
      (loader.governing?_closed componentwise closed root),
    fun others failing? documents => ?_⟩
  have asked : Move.opens? m.registry (.openPath (MemoryFiles.treeOf files) others failing? q
      documents) = some (key q, failing?) := course.opens?_openPath ..
  constructor
  · intro answered
    obtain ⟨_, brought, next, opens⟩ := m.next_opening asked
    rw [next] at answered
    have brought := Reply.opened.inj answered
    cases opens with
    | again other held =>
      cases brought
      exact course.numbered.apart _ _ _ live held
    | created new up rootFiles start s fresh =>
      cases brought
      exact absurd (course.numbered.brought _ _ live) (Nat.lt_irrefl _)
    | refused => cases brought
  · intro alike
    exact ((Moment.handsOut live (key q) alike.symm).2 _ _ asked).1

/-! A file is asked for twice, the second time with a slash too many. -/
namespace Sample

def spelled : Table Path String :=
  .ofList [(.ofString "/p/src/tsconfig.json", "\x7b\x7d"), (.ofString "/p/src/a.ts", "")]

def plainly : Path := .ofString "/p/src/a.ts"
def doubled : Path := .ofString "/p//src/a.ts"

def openedPlainly : Moment :=
  begun.next (.openPath (MemoryFiles.treeOf spelled) [] none plainly .plain)
def openedDoubled : Moment :=
  openedPlainly.next (.openPath (MemoryFiles.treeOf spelled) [] none doubled .plain)

end Sample

/-- One project file with two live sessions. -/
theorem Course.two_sessions_doubled :
    let key := keyFor Sample.projects (MemoryFiles.treeOf Sample.spelled) (.ofString "/")
    Course (.ofString "/") Sample.projects Sample.conversion
      [Sample.openedDoubled, Sample.openedPlainly, Sample.begun] ∧
    Sample.plainly.Same Sample.doubled ∧
    Option.Rel Path.Same (key Sample.plainly).file? (key Sample.doubled).file? ∧
    Sample.openedPlainly.reply = .opened (.ok 0) ∧ Sample.openedDoubled.reply ≠ .opened (.ok 0) ∧
    Sample.openedDoubled.registry.live.get? (key Sample.plainly) = some 0 ∧
    Sample.openedDoubled.registry.live.get? (key Sample.doubled) = some 1 := by
  intro key
  have same : Sample.plainly.Same Sample.doubled := by decide +kernel
  have course : Course (.ofString "/") Sample.projects Sample.conversion
      [Sample.openedPlainly, Sample.begun] := .moved (.opened _) _
  obtain ⟨files, -, answered⟩ := same_session_iff_spelled_alike same course
    (show _ = [] ++ _ from rfl) (show Sample.openedPlainly.reply = .opened (.ok 0) from rfl)
    fun e none => by cases none
  have apart : ¬ (key Sample.plainly).Same (key Sample.doubled) := by decide +kernel
  exact ⟨.moved course _, same, files, rfl, mt (answered [] none .plain).mp apart,
    by decide +kernel, by decide +kernel⟩

end Registry

end ComponentProjects
