import ComponentProjects.Proofs.Session.Life

/-! When an engine is replaced. What a session takes its live engine to know of a file is what it
last held of it in that engine's life, and an update asks for a new engine just when the
document contradicts that. No engine comes back under another handle. -/
namespace ComponentProjects

/-- The dialect of the last snapshot of a path that the session held in an engine's life. -/
def lastKnown? (engine : EngineHandle) (course : List Moment) (path : Path) : Option Dialect :=
  lastSeen? (fun m => (m.held? path).map Snapshot.dialect) engine course

variable {host : Host} {m : Moment} {before : List Moment} {engine : EngineHandle}

theorem exists_of_lastKnown? {course : List Moment} {path : Path} {k : Dialect}
    (known : lastKnown? engine course path = some k) : ∃ e ∈ course,
      e.session.handle = engine ∧ ∃ u, e.held? path = some u ∧ u.dialect = k := by
  obtain ⟨e, member, live, saw⟩ := exists_of_lastSeen? known
  exact ⟨e, member, live, Option.map_eq_some_iff.mp saw⟩

namespace Course

theorem knownDialect?_eq (course : Course host (m :: before)) (keeps : host.newDocument.KeepsPath)
    (path : Path) :
    m.session.knownDialect? path = lastKnown? m.session.handle (m :: before) path := by
  refine course.induct ?_ ?_
  · intro key factory tree session start up
    obtain ⟨-, -, rfl⟩ := Session.opened_eq up
    rw [lastKnown?, lastSeen?_of_live _ rfl]
    rfl
  · intro m before move course known
    have follows := m.next_follows (course.filed keeps) move
    rw [lastKnown?, lastSeen?_of_live _ rfl]
    -- a new engine was never live before, and all that was retired for the old one is forgotten
    by_cases live : (m.next move).session.handle = m.session.handle
    · rw [follows.known live, known, live]
      rfl
    · rw [course.lastSeen?_of_renewed live, Session.knownDialect?, follows.renewed live]
      rfl

def Alike (e f : Moment) : Prop :=
  e.session.handle.engine = f.session.handle.engine ↔
    e.session.handle.generation = f.session.handle.generation

theorem alike_of_replaces {e f : Moment} (h : Replaces e f) : Alike e f := by
  unfold Alike
  rcases h with same | ⟨engine, generation⟩
  · rw [same]
    exact ⟨fun _ => rfl, fun _ => rfl⟩
  · omega

theorem alike (course : Course host (m :: before)) :
    ∀ e ∈ m :: before, ∀ f ∈ m :: before, Alike e f := by
  intro e he f hf
  have forward : (m :: before).Pairwise Alike := course.replaces.imp alike_of_replaces
  have backward : (m :: before).Pairwise (flip Alike) := by
    refine forward.imp fun h => ?_
    unfold flip Alike at *
    rw [eq_comm, h, eq_comm]
  have self : ∀ e ∈ m :: before, Alike e e := fun _ _ => iff_of_true rfl rfl
  exact List.Pairwise.forall_of_forall_of_flip self forward backward he hf

theorem needsRestart_iff {known? : Option Dialect} {next : Dialect} :
    Session.needsRestart known? next = true ↔ ∃ known, known? = some known ∧ known ≠ next := by
  cases known? <;> simp [Session.needsRestart]

/-- The rule for new engines, over every course. The last part says that two handles are one
just when their generations are, so a handle that was replaced is never given out again. -/
theorem restarts_iff_known_otherwise (course : Course host (m :: before))
    (keeps : host.newDocument.KeepsPath) (tree : FileTree) (queries : List Query)
    (failure? : Option String) (d : Document) :
    let live := m.session.handle
    let updated := (m.session.update ⟨queries, failure?, m.built⟩ tree d).value
    let next := (Snapshot.ofDocument host.preprocess d .editor).value.dialect
    (m.session.alreadyPublished d = false → (updated.1.start?.isSome = true ↔
      ∃ known, lastKnown? live (m :: before) d.path = some known ∧ known ≠ next)) ∧
    (updated.1.start? = none → updated.1.outcome = .ok live ∧ updated.2.handle = live) ∧
    (updated.1.start?.isSome = true → ∀ cause, failure? = some cause →
      updated.1.outcome = .error ⟨m.session.key, cause⟩ ∧ updated.2.handle = live) ∧
    (updated.1.start?.isSome = true → failure? = none →
      updated.1.outcome = .ok updated.2.handle ∧
        updated.2.handle.generation = live.generation + 1 ∧
        ∀ e ∈ m :: before, e.session.handle.engine ≠ updated.2.handle.engine) ∧
    ∀ e ∈ m :: before, ∀ f ∈ m :: before,
      (e.session.handle.engine = f.session.handle.engine ↔
        e.session.handle.generation = f.session.handle.generation) := by
  intro live updated next
  have dialect : (m.session.incoming d).dialect = next := by
    rw [Session.incoming, course.session_host keeps]
  refine ⟨fun fresh => ?_, Session.handle_of_no_start,
    fun start cause down => Session.handle_of_failed_start down start,
    fun start up => ?_, course.alike⟩
  · rw [Session.start?_isSome_update, course.knownDialect?_eq keeps, dialect, needsRestart_iff]
    exact and_iff_right fresh
  · obtain ⟨outcome, handle⟩ := Session.handle_of_start up start
    rw [handle]
    refine ⟨outcome, rfl, fun e earlier => ?_⟩
    exact Nat.ne_of_lt (course.engine_lt_built e earlier)

/-- A component that was closed is opened in another dialect. -/
theorem restarts_reopened :
    let course := [Sample.closed, Sample.edited, Sample.opened]
    let updated := (Sample.closed.session.update ⟨[.dialect Sample.app], none, 1⟩
      (Sample.disk "js") ⟨Sample.app, 2, "ts"⟩).value
    Course Sample.host course ∧ lastKnown? ⟨0, 0⟩ course Sample.app = some .jsx ∧
      updated.1.start?.isSome = true ∧ updated.2.handle.generation = 1 ∧
      ∀ e ∈ course, e.session.handle.engine ≠ updated.2.handle.engine := by
  intro course updated
  obtain ⟨decides, -, -, renews, -⟩ := restarts_iff_known_otherwise Sample.course_closed
    DocumentFactory.plain_keepsPath (Sample.disk "js") [.dialect Sample.app] none
    ⟨Sample.app, 2, "ts"⟩
  have start := (decides rfl).mpr ⟨.jsx, rfl, by decide⟩
  obtain ⟨-, generation, new⟩ := renews start rfl
  exact ⟨Sample.course_closed, rfl, start, generation, new⟩

end Course

end ComponentProjects
