import ComponentProjects.FileTree.Memory
import ComponentProjects.Proofs.Host.Loading
import ComponentProjects.Session.Basic

/-! The ways an update of a session can go, and what each of them leaves tracked. A document is
passed over, accepted by the live engine, the cause of a new engine, or taken back because no
new engine came up. -/
namespace ComponentProjects.Session

variable {s : Session} {factory : EngineFactory} {tree : FileTree} {d : Document} {p : Path}
  {u : Snapshot}

/-- Every snapshot is tracked under its own path. -/
def Filed (s : Session) : Prop := ∀ p u, s.held.tracked.get? p = some u → u.path.Same p

/-- The snapshot that a document of the editor's is published as. -/
def incoming (s : Session) (d : Document) : Snapshot :=
  (Snapshot.ofDocument s.host.preprocess d .editor).value

def published (s : Session) (d : Document) : Held :=
  { s.held with tracked := s.held.tracked.publish (s.incoming d) }

/-- The answers that a new engine gets, and what the host holds after them. -/
def trial (s : Session) (factory : EngineFactory) (tree : FileTree) (d : Document) :
    List Answer × Held :=
  (s.host.askAll tree (s.published d) factory.queries).value

def nextHandle (s : Session) (factory : EngineFactory) : EngineHandle :=
  ⟨factory.built, s.handle.generation + 1⟩

/-- What the host is left with when no new engine came up for a document. -/
def rolledBack (s : Session) (factory : EngineFactory) (tree : FileTree) (d : Document) : Held :=
  let held := (s.trial factory tree d).2
  { held with tracked := putBack held.tracked d.path (s.held.tracked.get? d.path) }

inductive Updates (s : Session) (factory : EngineFactory) (tree : FileTree) (d : Document) :
    Update × Session → Prop where
  | passedOver (again : s.alreadyPublished d = true) :
    Updates s factory tree d (⟨.ok s.handle, none⟩, s)
  | accepted (fresh : s.alreadyPublished d = false)
      (fits : needsRestart (s.knownDialect? d.path) (s.incoming d).dialect = false) :
    Updates s factory tree d (⟨.ok s.handle, none⟩,
      { s with held := s.published d, retired := s.retired.erase d.path })
  | restarted (fresh : s.alreadyPublished d = false)
      (clash : needsRestart (s.knownDialect? d.path) (s.incoming d).dialect = true)
      (up : factory.failure? = none) :
    Updates s factory tree d
      (⟨.ok (s.nextHandle factory), some ⟨(s.trial factory tree d).1, some factory.built⟩⟩,
        { s with held := (s.trial factory tree d).2, handle := s.nextHandle factory, retired := ∅ })
  | takenBack (fresh : s.alreadyPublished d = false)
      (clash : needsRestart (s.knownDialect? d.path) (s.incoming d).dialect = true)
      (cause : String) (down : factory.failure? = some cause) :
    Updates s factory tree d
      (⟨.error ⟨s.key, cause⟩, some ⟨(s.trial factory tree d).1, none⟩⟩,
        { s with held := s.rolledBack factory tree d })

theorem path_incoming : (s.incoming d).path = d.path := Snapshot.path_ofDocument ..

theorem update_updates (s : Session) (factory : EngineFactory) (tree : FileTree) (d : Document) :
    Updates s factory tree d (s.update factory tree d).value := by
  unfold update
  split
  · rename_i again
    exact .passedOver again
  · rename_i again
    have fresh : s.alreadyPublished d = false := by simpa using again
    have path : (Snapshot.ofDocument s.host.preprocess d .editor).value.path = d.path :=
      s.path_incoming
    simp only [Noted.value_bind, path]
    split
    · rename_i clash
      unfold restart EngineFactory.start
      cases failure : factory.failure? with
      | none =>
        simp only [Noted.value_bind]
        exact .restarted fresh clash failure
      | some cause =>
        simp only [Noted.value_bind]
        exact .takenBack fresh clash cause failure
    · rename_i fits
      exact .accepted fresh (eq_false_of_ne_true fits)

theorem get?_published_of_same (same : d.path.Same p) :
    (s.published d).tracked.get? p = some (s.incoming d) := by
  rw [published, Snapshots.get?_publish, path_incoming]
  exact if_pos same

theorem get?_published_of_not_same (apart : ¬ d.path.Same p) :
    (s.published d).tracked.get? p = s.held.tracked.get? p := by
  rw [published, Snapshots.get?_publish, path_incoming]
  exact if_neg apart

theorem trial_loads (s : Session) (factory : EngineFactory) (tree : FileTree) (d : Document) :
    s.host.Loads tree
      (factory.queries.flatMap Query.asked ++ (s.trial factory tree d).1.flatMap Answer.told)
      (s.published d).tracked (s.trial factory tree d).2.tracked :=
  Host.askAll_loads _ _

theorem get?_trial_of_same (same : d.path.Same p) :
    (s.trial factory tree d).2.tracked.get? p = some (s.incoming d) :=
  (trial_loads s factory tree d).kept _ _ (get?_published_of_same same)

theorem get?_trial_of_not_same (apart : ¬ d.path.Same p)
    (held : s.held.tracked.get? p = some u) :
    (s.trial factory tree d).2.tracked.get? p = some u :=
  (trial_loads s factory tree d).kept _ _ ((get?_published_of_not_same apart).trans held)

theorem get?_putBack (tracked : Snapshots) (path : Path) {replaced? : Option Snapshot}
    (filed : ∀ r, replaced? = some r → r.path.Same path) (p : Path) :
    (putBack tracked path replaced?).get? p =
      if path.Same p then replaced? else tracked.get? p := by
  cases replaced? with
  | none => simp only [putBack, Table.get?_erase, Path.rank_eq_iff_same]
  | some r =>
    have same : r.path.Same p ↔ path.Same p :=
      ⟨(filed r rfl).symm.trans, (filed r rfl).trans⟩
    simp only [putBack, Snapshots.get?_publish, same]

theorem get?_rolledBack (filed : s.Filed) (p : Path) :
    (s.rolledBack factory tree d).tracked.get? p =
      if d.path.Same p then s.held.tracked.get? p
      else (s.trial factory tree d).2.tracked.get? p := by
  have back := get?_putBack (s.trial factory tree d).2.tracked d.path (filed d.path) p
  split
  · rename_i same
    rw [if_pos same] at back
    exact back.trans (Table.get?_congr _ same.rank_eq)
  · rename_i apart
    rw [if_neg apart] at back
    exact back

/-- Whether a new engine is asked for depends on what is known of the document's path alone. -/
theorem start?_isSome_update (factory : EngineFactory) (tree : FileTree) :
    (s.update factory tree d).value.1.start?.isSome = true ↔
      s.alreadyPublished d = false ∧
        needsRestart (s.knownDialect? d.path) (s.incoming d).dialect = true := by
  have case := update_updates s factory tree d
  generalize (s.update factory tree d).value = result at case
  cases case with
  | passedOver again => simp [again]
  | accepted fresh fits => simp [fits]
  | restarted fresh clash up => simp [fresh, clash]
  | takenBack fresh clash cause down => simp [fresh, clash]

theorem handle_of_no_start (none : (s.update factory tree d).value.1.start? = none) :
    (s.update factory tree d).value.1.outcome = .ok s.handle ∧
      (s.update factory tree d).value.2.handle = s.handle := by
  have case := update_updates s factory tree d
  generalize (s.update factory tree d).value = result at case none ⊢
  cases case with
  | passedOver again => exact ⟨rfl, rfl⟩
  | accepted fresh fits => exact ⟨rfl, rfl⟩
  | restarted fresh clash up => cases none
  | takenBack fresh clash cause down => cases none

theorem handle_of_failed_start {cause : String} (down : factory.failure? = some cause)
    (start : (s.update factory tree d).value.1.start?.isSome = true) :
    (s.update factory tree d).value.1.outcome = .error ⟨s.key, cause⟩ ∧
      (s.update factory tree d).value.2.handle = s.handle := by
  have case := update_updates s factory tree d
  generalize (s.update factory tree d).value = result at case start ⊢
  cases case with
  | passedOver again => cases start
  | accepted fresh fits => cases start
  | restarted fresh clash up => cases up.symm.trans down
  | takenBack fresh clash other other_down =>
    cases other_down.symm.trans down
    exact ⟨rfl, rfl⟩

theorem handle_of_start (up : factory.failure? = none)
    (start : (s.update factory tree d).value.1.start?.isSome = true) :
    (s.update factory tree d).value.1.outcome = .ok (s.nextHandle factory) ∧
      (s.update factory tree d).value.2.handle = s.nextHandle factory := by
  have case := update_updates s factory tree d
  generalize (s.update factory tree d).value = result at case start ⊢
  cases case with
  | passedOver again => cases start
  | accepted fresh fits => cases start
  | restarted fresh clash up => exact ⟨rfl, rfl⟩
  | takenBack fresh clash cause down => cases up.symm.trans down

end ComponentProjects.Session

/-! A project of two components for the closed cases. Its sources say their dialect. -/
namespace ComponentProjects.Sample

def app : Path := .ofString "/p/App.widget"
def menu : Path := .ofString "/p/Menu.widget"

def host : Host where
  configuration := ⟨none, .ofString "/p", ∅, []⟩
  preprocess := fun _ source => ⟨source, if source = "ts" then .tsx else .jsx, true⟩
  newDocument := .plain

def disk (source : String) : FileTree := MemoryFiles.treeOf (.ofList [(app, source), (menu, "js")])

end ComponentProjects.Sample
