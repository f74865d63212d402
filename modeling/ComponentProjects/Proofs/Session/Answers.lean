import ComponentProjects.Proofs.Session.Course

/-! What the live engine gets to hear. A moment serves the snapshots its session holds, whatever
the files are by then, and an answer that was heard is one that its moment goes on giving. -/
namespace ComponentProjects

namespace Moment

/-- Whatever the files are, the engine gets this snapshot for the path. -/
def Serves (m : Moment) (path : Path) (u : Snapshot) : Prop :=
  ∀ tree, (m.session.ask tree (.snapshot path)).value.1 = .snapshot (some u)

/-- Whatever the files are, the engine is told this version for the path. -/
def Tells (m : Moment) (path : Path) (version : String) : Prop :=
  ∀ tree, (m.session.ask tree (.version path)).value.1 = .text version

end Moment

variable {host : Host} {m : Moment} {before all : List Moment} {p : Path} {u : Snapshot}
  {version : String} {query : Query} {answer : Answer}

theorem Host.fromTree?_nothing (host : Host) (p : Path) :
    host.fromTree? (MemoryFiles.treeOf ∅) p = none := by
  have missing : ((host.view (MemoryFiles.treeOf ∅)).contents? p).value = none := by
    simp only [view, FileTree.templated]
    split <;> rfl
  simp only [fromTree?, Snapshot.load?, Noted.value_bind, missing, Noted.value_pure]

theorem Host.snapshot?_nothing (host : Host) (p : Path) (tracked : Snapshots) :
    (host.snapshot? (MemoryFiles.treeOf ∅) p tracked).value = (tracked.get? p.real, tracked) := by
  rw [snapshot?_value, fromTree?_nothing]
  cases tracked.get? p.real <;> rfl

theorem Host.snapshot?_of_held {host : Host} {tracked : Snapshots}
    (held : tracked.get? p.real = some u) (tree : FileTree) :
    host.snapshot? tree p tracked = pure (some u, tracked) := by
  unfold snapshot? Snapshots.getOrLoad
  rw [held]

theorem Host.snapshot?_of_tracked {host : Host} {tracked : Snapshots}
    (held : tracked.get? p.real = some u) (tree : FileTree) :
    (host.snapshot? tree p tracked).value = (some u, tracked) := by
  rw [snapshot?_of_held held]
  rfl

namespace Moment

theorem serves_iff : m.Serves p u ↔ m.held? p.real = some u := by
  constructor
  · intro serves
    have answer := serves (MemoryFiles.treeOf ∅)
    exact (congrArg Prod.fst (m.session.host.snapshot?_nothing p _)).symm.trans
      (Answer.snapshot.inj answer)
  · intro held tree
    exact congrArg (Answer.snapshot ∘ Prod.fst) (Host.snapshot?_of_tracked held tree)

theorem tells_iff (known : version ≠ "") :
    m.Tells p version ↔ ∃ u, m.held? p.real = some u ∧ u.versionText = version := by
  constructor
  · intro tells
    have answer := Answer.text.inj (tells (MemoryFiles.treeOf ∅))
    simp only [Host.snapshot?_nothing] at answer
    cases held : m.held? p.real with
    | none =>
      rw [show m.session.held.tracked.get? p.real = none from held] at answer
      exact absurd answer.symm known
    | some u =>
      rw [show m.session.held.tracked.get? p.real = some u from held] at answer
      exact ⟨u, rfl, answer⟩
  · rintro ⟨u, held, rfl⟩ tree
    exact congrArg (fun s => Answer.text (s.1.elim "" Snapshot.versionText))
      (Host.snapshot?_of_tracked held tree)

end Moment

namespace Course

/-- An answer was given at some point before its moment, and what was tracked at that point is
held since. -/
theorem heard_point (course : Course host (m :: before))
    (heard : (query, answer) ∈ m.event.heard) : ∃ tree point,
      answer = (m.session.host.ask tree point query).value.1 ∧
        ∀ p u, (m.session.host.ask tree point query).value.2.tracked.get? p = some u →
          m.held? p = some u := by
  revert heard
  refine course.induct ?_ ?_
  · intro key factory tree session start up heard
    obtain ⟨-, answers, rfl⟩ := Session.opened_eq up
    rw [Event.heard, answers] at heard
    exact ⟨tree, Host.mem_zip_askAll heard⟩
  · intro m before move course _ heard
    cases move with
    | update tree queries failure? d =>
      have case := Session.update_updates m.session ⟨queries, failure?, m.built⟩ tree d
      simp only [Moment.next] at heard ⊢
      generalize (m.session.update ⟨queries, failure?, m.built⟩ tree d).value = result
        at case heard ⊢
      cases case with
      | restarted fresh clash up => exact ⟨tree, Host.mem_zip_askAll heard⟩
      | passedOver again => cases heard
      | accepted fresh fits => cases heard
      | takenBack fresh clash cause down => cases heard
    | ask tree query =>
      cases List.mem_singleton.mp heard
      exact ⟨tree, m.session.held, rfl, fun _ _ held => held⟩
    | delete path => cases heard
    | elsewhere => cases heard

theorem serves_of_heard (course : Course host all) (member : m ∈ all)
    (heard : (.snapshot p, .snapshot (some u)) ∈ m.event.heard) : m.Serves p u := by
  obtain ⟨later, before, rfl⟩ := List.append_of_mem member
  obtain ⟨tree, point, answer, stays⟩ :=
    (course.suffix (List.suffix_append later _)).heard_point heard
  rw [Host.ask_snapshot_value] at answer
  exact Moment.serves_iff.mpr (stays _ u (Answer.snapshot.inj answer).symm)

theorem tells_of_heard (course : Course host all) (member : m ∈ all) (known : version ≠ "")
    (heard : (.version p, .text version) ∈ m.event.heard) : m.Tells p version := by
  obtain ⟨later, before, rfl⟩ := List.append_of_mem member
  obtain ⟨tree, point, answer, stays⟩ :=
    (course.suffix (List.suffix_append later _)).heard_point heard
  rw [Host.ask_version_value] at answer
  refine (Moment.tells_iff known).mpr ?_
  cases found : (m.session.host.ask tree point (.version p)).value.2.tracked.get? p.real with
  | none =>
    rw [found] at answer
    exact absurd (Answer.text.inj answer) known
  | some u =>
    rw [found] at answer
    exact ⟨u, stays _ u found, (Answer.text.inj answer).symm⟩

end Course

end ComponentProjects
