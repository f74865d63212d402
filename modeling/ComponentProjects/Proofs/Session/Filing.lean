import ComponentProjects.Proofs.Session.Rollback
import ComponentProjects.Proofs.Session.Course

/-! Under which paths snapshots are tracked. What is published goes under the snapshot's own path,
what is loaded goes under the path that was asked for, and a document factory may make it of a
document of another path. Such a snapshot does not come back where it was when it is published once
more, so it is neither put back by an update that fails nor remembered when it is deleted. -/
namespace ComponentProjects

namespace Snapshots

/-- What is done with the tracked snapshots. -/
inductive Action where
  | publish (s : Snapshot)
  | forget (path : Path)
  | load (tree : FileTree) (path : Path)

variable {preprocess : Preprocessor} {newDocument : DocumentFactory} {tracked : Snapshots}
  {p path : Path} {s u : Snapshot}

def after (preprocess : Preprocessor) (newDocument : DocumentFactory) (tracked : Snapshots) :
    Action → Snapshots
  | .publish s => tracked.publish s
  | .forget path => tracked.erase path
  | .load tree path =>
    (tracked.getOrLoad path (Snapshot.load? tree preprocess newDocument path)).value.2

def run (preprocess : Preprocessor) (newDocument : DocumentFactory) (actions : List Action) :
    Snapshots := actions.foldl (after preprocess newDocument) ∅

/-- The snapshot of a file that was loaded for a path, with the document the factory made of it. -/
def LoadedFor (preprocess : Preprocessor) (newDocument : DocumentFactory) (actions : List Action)
    (p : Path) (s : Snapshot) : Prop :=
  ∃ tree path content, .load tree path ∈ actions ∧ path.Same p ∧
    (tree.contents? path).value = some content ∧
      s = (Snapshot.ofDocument preprocess (newDocument path content) .disk).value

theorem value_load? (tree : FileTree) (path : Path) :
    (Snapshot.load? tree preprocess newDocument path).value =
      (tree.contents? path).value.map fun content =>
        (Snapshot.ofDocument preprocess (newDocument path content) .disk).value := by
  unfold Snapshot.load?
  rw [Noted.value_bind]
  cases (tree.contents? path).value <;> rfl

/-- What an action tracks that was not tracked before. -/
theorem get?_after {action : Action}
    (held : (after preprocess newDocument tracked action).get? p = some s) :
    tracked.get? p = some s ∨ (action = .publish s ∧ s.path.Same p) ∨
      LoadedFor preprocess newDocument [action] p s := by
  cases action with
  | publish u =>
    have read : (tracked.publish u).get? p = some s := held
    rw [get?_publish] at read
    split at read
    · rename_i same
      cases read
      exact .inr (.inl ⟨rfl, same⟩)
    · exact .inl read
  | forget path =>
    have read : (tracked.erase path).get? p = some s := held
    rw [Table.get?_erase] at read
    split at read
    · cases read
    · exact .inl read
  | load tree path =>
    have read : (tracked.getOrLoad path
        (Snapshot.load? tree preprocess newDocument path)).value.2.get? p = some s := held
    rw [tracked_getOrLoad, value_load?] at read
    split at read
    · rename_i u missing loaded
      obtain ⟨content, found, rfl⟩ := Option.map_eq_some_iff.mp loaded
      rw [Table.get?_insert] at read
      split at read
      · rename_i same
        have alike := Path.rank_eq_iff_same.mp same
        exact .inr (.inr ⟨tree, path, content, List.mem_singleton_self _, alike, found,
          (Option.some.inj read).symm⟩)
      · exact .inl read
    · exact .inl read

theorem LoadedFor.mono {actions more : List Action} (subset : actions ⊆ more)
    (loaded : LoadedFor preprocess newDocument actions p s) :
    LoadedFor preprocess newDocument more p s := by
  obtain ⟨tree, path, content, member, rest⟩ := loaded
  exact ⟨tree, path, content, subset member, rest⟩

/-- Whatever a run tracks is filed under its own path, or it was loaded for the path that it is
tracked under. -/
theorem filed_or_loaded {actions : List Action}
    (held : (actions.foldl (after preprocess newDocument) tracked).get? p = some s) :
    tracked.get? p = some s ∨ s.path.Same p ∨ LoadedFor preprocess newDocument actions p s := by
  induction actions generalizing tracked with
  | nil => exact .inl held
  | cons action rest ih =>
    rcases ih held with before | same | loaded
    · rcases get?_after before with earlier | ⟨-, same⟩ | loaded
      · exact .inl earlier
      · exact .inr (.inl same)
      · exact .inr (.inr (loaded.mono (by simp)))
    · exact .inr (.inl same)
    · exact .inr (.inr (loaded.mono (List.subset_cons_self _ _)))

theorem filed_or_loaded_run {actions : List Action}
    (held : (run preprocess newDocument actions).get? p = some s) :
    s.path.Same p ∨ LoadedFor preprocess newDocument actions p s := by
  rcases filed_or_loaded held with nothing | origin
  · cases nothing
  · exact origin

theorem same_of_keepsPath (keeps : newDocument.KeepsPath) {actions : List Action}
    (held : (run preprocess newDocument actions).get? p = some s) : s.path.Same p := by
  rcases filed_or_loaded_run held with same | ⟨tree, path, content, -, same, -, rfl⟩
  · exact same
  · rw [Snapshot.path_ofDocument]
    exact (keeps path content).trans same

/-- A file that the factory makes a document of another path of is enough to file a snapshot
wrongly. -/
theorem keepsPath_of_same (filed : ∀ actions p s,
    (run preprocess newDocument actions).get? p = some s → s.path.Same p) :
    newDocument.KeepsPath := by
  intro path content
  let tree := MemoryFiles.treeOf (.ofList [(path, content)])
  let loaded := (Snapshot.ofDocument preprocess (newDocument path content) .disk).value
  have found : (tree.contents? path).value = some content := by
    change (Table.ofList [(path, content)]).get? path = some content
    simp [Table.ofList, Table.insertAll, Table.get?_insert]
  have held : (run preprocess newDocument [.load tree path]).get? path = some loaded := by
    change ((∅ : Snapshots).getOrLoad path
      (Snapshot.load? tree preprocess newDocument path)).value.2.get? path = some loaded
    rw [tracked_getOrLoad, value_load?, found, Table.get?_empty]
    simp [Table.get?_insert, loaded]
  have same := filed _ path loaded held
  rwa [Snapshot.path_ofDocument] at same

/-- A snapshot comes back under a path, and nowhere else, just when the path is its own. -/
theorem restores_iff : (∀ (later : Snapshots) (q : Path),
    (later.publish s).get? q = if p.Same q then some s else later.get? q) ↔ s.path.Same p := by
  constructor
  · intro restores
    have back := restores ∅ p
    rw [get?_publish, if_pos (Path.Same.refl p)] at back
    split at back
    · assumption
    · cases back
  · intro own later q
    rw [get?_publish]
    have alike : s.path.Same q ↔ p.Same q := ⟨own.symm.trans, own.trans⟩
    simp only [alike]

end Snapshots

namespace Session

variable {s : Session} {factory : EngineFactory} {tree : FileTree} {d : Document} {p path : Path}
  {u : Snapshot}

/-- A refused update puts back what was tracked under the document's path just when that is a
snapshot of this path. -/
theorem restored_iff {failure : StartFailure}
    (refused : (s.update factory tree d).value.1.outcome = .error failure) :
    (s.update factory tree d).value.2.held.tracked.get? d.path = s.held.tracked.get? d.path ↔
      ∀ u, s.held.tracked.get? d.path = some u → u.path.Same d.path := by
  have case := update_updates s factory tree d
  generalize (s.update factory tree d).value = result at case refused ⊢
  cases case with
  | passedOver again => cases refused
  | accepted fresh fits => cases refused
  | restarted fresh clash up => cases refused
  | takenBack fresh clash cause down =>
    simp only [rolledBack]
    cases before : s.held.tracked.get? d.path with
    | none => simp [putBack, Table.get?_erase]
    | some u =>
      -- the new snapshot has another dialect than the one that it would have to give way to
      have apart : s.incoming d ≠ u := by
        intro equal
        have known : s.knownDialect? d.path = some u.dialect := by simp [knownDialect?, before]
        rw [known, equal] at clash
        simp [needsRestart] at clash
      have published : (s.trial factory tree d).2.tracked.get? d.path = some (s.incoming d) :=
        get?_trial_of_same (Path.Same.refl d.path)
      simp only [putBack, Snapshots.get?_publish, published, Option.some.injEq, forall_eq']
      by_cases own : u.path.Same d.path
      · simp [own]
      · simp [own, apart]

theorem known_after_delete_iff (held : s.held.tracked.get? path = some u) :
    (s.delete path).knownDialect? path = some u.dialect ↔
      u.path.Same path ∨ s.retired.get? path = some u.dialect := by
  have gone : (s.delete path).held.tracked.get? path = none := by
    simp [delete, Table.get?_erase]
  have retired : (s.delete path).retired = s.retired.insert u.path u.dialect := by
    simp [delete, held]
  unfold knownDialect?
  rw [gone, retired, Table.get?_insert]
  simp only [Path.rank_eq_iff_same, Option.map_none, Option.none_or]
  by_cases own : u.path.Same path
  · simp [own]
  · simp [own]

end Session

namespace Snapshots

/-- Snapshots are tracked under their own paths, whatever is done with them, just when the factory
makes documents of the paths it is asked for. In any case a snapshot that was not loaded is tracked
under its own path, and one comes back to the path it is tracked under just when that is its own. So
it is with what an update puts back that fails, and with the dialect that is remembered of a
document that is deleted. -/
theorem filed_iff_keepsPath (preprocess : Preprocessor) (newDocument : DocumentFactory) :
    ((∀ actions p s, (run preprocess newDocument actions).get? p = some s → s.path.Same p) ↔
      newDocument.KeepsPath) ∧
    (∀ actions p s, (run preprocess newDocument actions).get? p = some s →
      (s.path.Same p ∨ LoadedFor preprocess newDocument actions p s) ∧
      ((∀ (later : Snapshots) q,
        (later.publish s).get? q = if p.Same q then some s else later.get? q) ↔ s.path.Same p)) ∧
    (∀ (session : Session) factory tree d failure,
      let updated := (session.update factory tree d).value
      updated.1.outcome = .error failure →
        (updated.2.held.tracked.get? d.path = session.held.tracked.get? d.path ↔
          ∀ u, session.held.tracked.get? d.path = some u → u.path.Same d.path)) ∧
    ∀ (session : Session) path u, session.held.tracked.get? path = some u →
      ((session.delete path).knownDialect? path = some u.dialect ↔
        u.path.Same path ∨ session.retired.get? path = some u.dialect) := by
  refine ⟨⟨keepsPath_of_same, fun keeps _ _ _ => same_of_keepsPath keeps⟩, ?_, ?_, ?_⟩
  · exact fun actions p s held => ⟨filed_or_loaded_run held, restores_iff⟩
  · exact fun session factory tree d failure => Session.restored_iff
  · exact fun session path u => Session.known_after_delete_iff

/-- A factory that makes each document of a copy beside the file. -/
def Sample.copying : DocumentFactory := fun path content => ⟨path.withEnding ".bak", 0, content⟩

/-- The copy of a component is a plain file. When the editor opens the component and no engine comes
up, the editor's snapshot stays, and a component that is deleted is forgotten at once. -/
theorem misfiled_copied :
    let host := { Sample.host with newDocument := Sample.copying }
    let loaded := run host.preprocess host.newDocument [.load (Sample.disk "js") Sample.app]
    let session : Session := ⟨.global, host, ⟨loaded, ∅⟩, ⟨0, 0⟩, ∅⟩
    let copy : Snapshot := ⟨.ofString "/p/App.widget.bak", 0, "js", .unknown, .disk, true⟩
    let failing : EngineFactory := ⟨[], some "down", 1⟩
    let updated := (session.update failing (Sample.disk "js") ⟨Sample.app, 1, "js"⟩).value
    loaded.get? Sample.app = some copy ∧ ¬ copy.path.Same Sample.app ∧
      ¬ Sample.copying.KeepsPath ∧ updated.1.outcome = .error ⟨.global, "down"⟩ ∧
      updated.2.held.tracked.get? Sample.app ≠ some copy ∧
      (session.delete Sample.app).knownDialect? Sample.app ≠ some .unknown := by
  intro host loaded session copy failing updated
  obtain ⟨filed, each, refused, deleted⟩ := filed_iff_keepsPath host.preprocess Sample.copying
  have held : loaded.get? Sample.app = some copy := rfl
  have apart : ¬ copy.path.Same Sample.app := by decide
  have down : updated.1.outcome = .error ⟨.global, "down"⟩ := rfl
  refine ⟨held, apart, fun keeps => apart (filed.mpr keeps _ _ _ held), down, fun restored => ?_,
    fun known => ?_⟩
  · exact apart ((refused session _ _ _ _ down).mp (restored.trans held.symm) copy held)
  · rcases (deleted session Sample.app copy held).mp known with own | retired
    · exact apart own
    · cases retired

end Snapshots
end ComponentProjects
