import ComponentProjects.Proofs.Session.Update

/-! An update for which no new engine comes up leaves the session as it was, but for the files
that the engine had read by then. Nothing is forgotten either: the same document asks for a new
engine again. -/
namespace ComponentProjects

namespace Update

/-- The files that an engine asked about while it was started for an update. -/
def asked (update : Update) (queries : List Query) : List Path :=
  update.start?.elim [] fun _ => queries.flatMap Query.asked

/-- The components that it was told of as modules. -/
def told (update : Update) : List Path :=
  update.start?.elim [] fun start => start.answers.flatMap Answer.told

end Update

namespace Session

variable {s : Session} {factory : EngineFactory} {tree : FileTree} {d : Document}

/-- What is left of a session after an update that was taken back. -/
structure Restored (s after : Session) (tree : FileTree) (d : Document) (asked told : List Path) :
    Prop where
  handle : after.handle = s.handle
  retired : after.retired = s.retired
  kept : ∀ p u, s.held.tracked.get? p = some u → after.held.tracked.get? p = some u
  document : after.held.tracked.get? d.path = s.held.tracked.get? d.path
  added : ∀ p u, s.held.tracked.get? p = none → after.held.tracked.get? p = some u →
    u.origin = .disk ∧ ¬ d.path.Same p ∧
      ∃ q, (q ∈ asked ∨ q ∈ told) ∧ q.Same p ∧ s.host.fromTree? tree q = some u
  again : after.alreadyPublished d = false ∧
    ∀ factory tree, (after.update factory tree d).value.1.start?.isSome

theorem kept_rolledBack (filed : s.Filed) {p : Path} {u : Snapshot}
    (held : s.held.tracked.get? p = some u) :
    (s.rolledBack factory tree d).tracked.get? p = some u := by
  rw [get?_rolledBack filed]
  split
  · exact held
  · rename_i apart
    exact get?_trial_of_not_same apart held

theorem added_rolledBack (filed : s.Filed) {p : Path} {u : Snapshot}
    (missing : s.held.tracked.get? p = none)
    (held : (s.rolledBack factory tree d).tracked.get? p = some u) :
    u.origin = .disk ∧ ¬ d.path.Same p ∧
      ∃ q, (q ∈ factory.queries.flatMap Query.asked ∨
        q ∈ (s.trial factory tree d).1.flatMap Answer.told) ∧
          q.Same p ∧ s.host.fromTree? tree q = some u := by
  rw [get?_rolledBack filed] at held
  split at held
  · rw [missing] at held
    cases held
  · rename_i apart
    have unpublished : (s.published d).tracked.get? p = none :=
      (get?_published_of_not_same apart).trans missing
    obtain ⟨q, wanted, same, read⟩ := (trial_loads s factory tree d).read p u unpublished held
    exact ⟨Host.origin_of_fromTree? read, apart, q, List.mem_append.mp wanted, same, read⟩

theorem update_restored {failure : StartFailure} (filed : s.Filed)
    (refused : (s.update factory tree d).value.1.outcome = .error failure) :
    s.Restored (s.update factory tree d).value.2 tree d
      ((s.update factory tree d).value.1.asked factory.queries)
      (s.update factory tree d).value.1.told := by
  have case := update_updates s factory tree d
  generalize (s.update factory tree d).value = result at case refused ⊢
  cases case with
  | passedOver again => cases refused
  | accepted fresh fits => cases refused
  | restarted fresh clash up => cases refused
  | takenBack fresh clash cause down =>
    have document : (s.rolledBack factory tree d).tracked.get? d.path =
        s.held.tracked.get? d.path := by
      rw [get?_rolledBack filed, if_pos (Path.Same.refl d.path)]
    let after : Session := { s with held := s.rolledBack factory tree d }
    have unpublished : after.alreadyPublished d = false := by
      simpa only [after, alreadyPublished, document] using fresh
    have known : after.knownDialect? d.path = s.knownDialect? d.path := by
      simp only [after, knownDialect?, document]
    refine ⟨rfl, rfl, fun _ _ => kept_rolledBack filed, document,
      fun _ _ => added_rolledBack filed, unpublished, fun factory tree => ?_⟩
    have again : needsRestart (after.knownDialect? d.path) (after.incoming d).dialect = true := by
      rw [known]
      exact clash
    exact start?_isSome_update factory tree |>.mpr ⟨unpublished, again⟩

/-- A component was closed in one dialect, and comes again in another. -/
def closed : Session where
  key := .global
  host := Sample.host
  held := ⟨(∅ : Snapshots).publish ⟨.ofString "/p/main.ts", 1, "", .ts, .editor, true⟩, ∅⟩
  handle := ⟨0, 0⟩
  retired := (∅ : Table Path Dialect).insert Sample.app .jsx

theorem closed_filed : closed.Filed := by
  intro p u held
  simp only [closed, Snapshots.get?_publish] at held
  split at held
  · rename_i same
    cases held
    exact same
  · cases held

def card : Path := .ofString "/p/node_modules/kit/lib/Card.widget"

/-- A package whose module is a component. -/
def packaged : Table Path String := .ofList
  [(Sample.menu, "js"), (card, "js"),
    (.ofString "/p/node_modules/kit/package.json", "\x7b\"main\":\"lib/Card.widget\"\x7d")]

/-- The engine reads the other component and imports the package's before it fails. -/
theorem closed_restored :
    let tree := MemoryFiles.treeOf packaged
    let failing : EngineFactory := ⟨[.snapshot Sample.menu, .version Sample.app,
      .resolve ["kit"] Sample.menu], some "down", 1⟩
    let updated := (closed.update failing tree ⟨Sample.app, 2, "ts"⟩).value
    closed.Filed ∧ updated.1.outcome = .error ⟨.global, "down"⟩ ∧
      closed.Restored updated.2 tree ⟨Sample.app, 2, "ts"⟩ [Sample.menu, Sample.app] [card] := by
  intro tree failing updated
  have refused : updated.1.outcome = .error ⟨.global, "down"⟩ := rfl
  have told : updated.1.told = [card] := by decide +kernel
  have restored := update_restored closed_filed refused
  rw [told] at restored
  exact ⟨closed_filed, refused, restored⟩

/-- The engine asks about one component by its converted path, and about none of the package's. The
components that it leaves tracked have other paths than those that it asked about. -/
theorem closed_left_unasked :
    let twin := Sample.menu.withEnding ".ts"
    let main := Path.ofString "/p/main.ts"
    let failing : EngineFactory := ⟨[.version twin, .resolve ["kit"] main], some "down", 1⟩
    let updated := (closed.update failing (MemoryFiles.treeOf packaged) ⟨Sample.app, 2, "ts"⟩).value
    closed.Filed ∧ updated.1.outcome = .error ⟨.global, "down"⟩ ∧
      ∀ p ∈ [Sample.menu, card], closed.held.tracked.get? p = none ∧
        (updated.2.held.tracked.get? p).isSome = true ∧ ∀ q ∈ [twin, main], ¬ q.Same p := by
  refine ⟨closed_filed, rfl, ?_⟩
  decide +kernel

end Session

end ComponentProjects
