import ComponentProjects.Proofs.Project.Selecting
import ComponentProjects.Proofs.Session.Asking
import ComponentProjects.Proofs.Session.Answers
import ComponentProjects.Proofs.Session.Rollback
import ComponentProjects.Proofs.Session.Steady

/-! Updates that are answered with an engine. What the document came to is tracked before the engine
asks its first question, and nothing that the engine reads is filed in its place. The same version
of the document, sent again, is passed over. -/
namespace ComponentProjects

/-- Imports are only ever answered with scripts, a component under its converted path. -/
def ImportCache.Scripted (cache : ImportCache) : Prop :=
  ∀ request r, cache.get? request = some (some r) → r.path.isTemplated = false

theorem Import.isTemplated_of_search {tree : FileTree} {options : Options} {specifier : String}
    {importer : Path} {r : Resolution}
    (found : (search tree options specifier importer).value = some r) :
    r.path.isTemplated = false := by
  obtain ⟨base, candidate⟩ := (found_of_search found).candidate
  obtain ⟨ending, known, ends⟩ := exists_ending_of_candidate candidate
  exact isTemplated_of_known known ends

theorem Import.finds_scripts : Finds (·.path.isTemplated = false) :=
  fun _ _ _ _ _ found => isTemplated_of_search found

/-- A path that a host takes for a file: it spells the file or its converted path. -/
def Path.Names (p file : Path) : Prop := p.Same file ∨ p.real.Same file

theorem Path.Names.real_same {p file : Path}
    (plain : ∀ q : Path, q.Same file → q.isConverted = false) (names : p.Names file) :
    p.real.Same file := by
  rcases names with same | same
  · rw [real_eq_self (plain p same)]
    exact same
  · exact same

/-- What a host that tracks a snapshot says of its path. Of files and directories it has its tree
say what is there, but for the converted path of a component, which reads as the snapshot. -/
def Snapshot.SeenIn (u : Snapshot) (tree : FileTree) (path : Path) : Query → Answer → Prop
  | .snapshot p, answer => p.Names path → answer = .snapshot (some u)
  | .version p, answer => p.Names path → answer = .text u.versionText
  | .dialect p, answer => p.Names path → answer = .dialect u.dialect
  | .isFile p, answer =>
    if p.isConverted then p.real.Same path → answer = .flag true
    else answer = .flag (tree.isFile p).value
  | .contents p, answer =>
    if p.isConverted then p.real.Same path → answer = .contents (some u.text)
    else answer = .contents (tree.contents? p).value
  | .files dir endings, answer => answer = .paths (tree.files dir endings).value
  | .subdirectories dir, answer => answer = .paths (tree.subdirectories dir).value
  | .isDirectory p, answer => answer = .flag (tree.isDirectory p).value
  | .fileNames, answer => ∃ paths, answer = .paths paths ∧ ∃ q ∈ paths, q.Same path
  | .resolve _ _, answer => ∃ entries, answer = .modules entries ∧ ∀ found, some found ∈ entries →
    found.file.Same path → path.isTemplated = true → u.dialect.ComesWith found.extension
  | .options, _ | .directory, _ => True

namespace Host

variable {host : Host} {tree : FileTree} {held : Held} {tracked : Snapshots} {path : Path}
  {u : Snapshot}

theorem fileNames_eq (host : Host) (tracked : Snapshots) :
    host.fileNames tracked = Path.firsts (host.configuration.rootFiles ++ tracked.keys) := by
  have kept := Path.foldl_keep [] (host.configuration.rootFiles ++ tracked.keys)
  simpa [fileNames, distinct] using kept

theorem exists_mem_fileNames (held : tracked.get? path = some u) :
    ∃ q ∈ host.fileNames tracked, q.Same path := by
  obtain ⟨key, entry, named⟩ := Table.get?_eq_some_iff.mp held
  have among : key ∈ host.configuration.rootFiles ++ tracked.keys :=
    List.mem_append_right _ (List.mem_map.mpr ⟨_, entry, rfl⟩)
  obtain ⟨q, first, same⟩ := Path.exists_same_of_mem among
  refine ⟨q, ?_, same.trans (Path.rank_eq_iff_same.mp named)⟩
  rw [fileNames_eq]
  exact first

theorem extension_handOut {r : Resolution} (script : r.path.isTemplated = false)
    (held : tracked.get? path = some u)
    (same : (r.handOut (host.dialect tree) tracked).value.1.file.Same path)
    (component : path.isTemplated = true) :
    (r.handOut (host.dialect tree) tracked).value.1.extension = u.dialect.componentExtension := by
  rw [file_handOut] at same
  cases converted : r.path.isConverted with
  | true =>
    have tracks : tracked.get? r.path.real.real = some u := by
      rw [Path.real_real, Table.get?_congr _ same.rank_eq]
      exact held
    rw [handOut_of_converted converted, dialect_eq_of_tracked tracks]
  | false =>
    rw [Path.real_eq_self converted] at same
    rw [same.isTemplated_eq, component] at script
    cases script

theorem extension_resolveAll {options : Options} {importer : Path} {specifiers : List String}
    {cache : ImportCache} (scripted : cache.Scripted) (held : tracked.get? path = some u)
    {found : ResolvedModule}
    (given : some found ∈ (resolveAll (host.view tree) options (host.dialect tree) importer
      specifiers cache tracked).value.1)
    (same : found.file.Same path) (component : path.isTemplated = true) :
    found.extension = u.dialect.componentExtension := by
  induction specifiers generalizing cache tracked with
  | nil => cases given
  | cons specifier rest ih =>
    have still : ImportCache.Scripted _ := ImportCache.Only.resolve Import.finds_scripts scripted
      (host.view tree) options ⟨specifier, importer⟩
    have cached : (cache.resolve (host.view tree) options ⟨specifier, importer⟩).value.2.get?
        ⟨specifier, importer⟩ = _ := ImportCache.resolve_caches _
    rw [resolveAll_cons] at given
    generalize (cache.resolve (host.view tree) options ⟨specifier, importer⟩).value = answered
      at still cached given
    obtain ⟨answer, after⟩ := answered
    cases answer with
    | none =>
      rcases List.mem_cons.mp given with here | later
      · cases here
      · exact ih still held later
    | some r =>
      rcases List.mem_cons.mp given with here | later
      · cases here
        exact extension_handOut (still _ r cached) held same component
      · exact ih still ((handOut_loads r tracked).kept _ _ held) later

theorem ask_seen (plain : ∀ q : Path, q.Same path → q.isConverted = false)
    (scripted : held.imports.Scripted) (tracks : held.tracked.get? path = some u) (query : Query) :
    u.SeenIn tree path query (host.ask tree held query).value.1 := by
  have named {p : Path} (same : p.real.Same path) :
      (host.snapshot? tree p held.tracked).value = (some u, held.tracked) := by
    apply snapshot?_of_tracked
    rw [Table.get?_congr _ same.rank_eq]
    exact tracks
  cases query with
  | snapshot p =>
    intro names
    exact congrArg (Answer.snapshot ·.1) (named (names.real_same plain))
  | version p =>
    intro names
    exact congrArg (fun s => Answer.text (s.1.elim "" Snapshot.versionText))
      (named (names.real_same plain))
  | dialect p =>
    intro names
    exact congrArg (fun s => Answer.dialect (s.1.elim (.ofPath p) Snapshot.dialect))
      (named (names.real_same plain))
  | isFile p =>
    cases converted : p.isConverted with
    | true =>
      simp only [Snapshot.SeenIn, converted, if_true]
      intro same
      have there : held.tracked.contains p.real = true := by
        rw [Table.contains, Table.get?_congr _ same.rank_eq, tracks]
        rfl
      simp only [ask, isFile, converted, there]
      rfl
    | false =>
      have itself := Path.real_eq_self converted
      simp only [Snapshot.SeenIn, converted, ask, isFile, view, FileTree.templated, itself]
      rfl
  | contents p =>
    cases converted : p.isConverted with
    | true =>
      simp only [Snapshot.SeenIn, converted, if_true]
      intro same
      have text := congrArg (fun s => Answer.contents (s.1.map Snapshot.text)) (named same)
      simp only [ask, track, contents?, if_pos converted]
      exact text
    | false =>
      simp only [Snapshot.SeenIn, converted, ask, track, contents?, view, FileTree.templated]
      rfl
  | fileNames => exact ⟨_, rfl, exists_mem_fileNames tracks⟩
  | resolve specifiers importer =>
    refine ⟨_, rfl, fun found given same component => ?_⟩
    rw [extension_resolveAll scripted tracks given same component]
    exact Dialect.comesWith_componentExtension _
  | files dir endings => rfl
  | subdirectories dir => rfl
  | isDirectory dir => rfl
  | options => trivial
  | directory => trivial

/-- Whatever is tracked when a row of questions begins is in view of each of them. -/
theorem askAll_seen (plain : ∀ q : Path, q.Same path → q.isConverted = false)
    (scripted : held.imports.Scripted) (tracks : held.tracked.get? path = some u)
    {queries : List Query} {query : Query} {answer : Answer}
    (asked : (query, answer) ∈ queries.zip (host.askAll tree held queries).value.1) :
    (∃ point : Held, point.tracked.get? path = some u ∧
      answer = (host.ask tree point query).value.1) ∧ u.SeenIn tree path query answer := by
  induction queries generalizing held with
  | nil => cases asked
  | cons first rest ih =>
    rw [askAll_cons] at asked
    rcases List.mem_cons.mp asked with here | later
    · cases here
      exact ⟨⟨held, tracks, rfl⟩, ask_seen plain scripted tracks query⟩
    · exact ih (ask_only Import.finds_scripts scripted first)
        ((ask_loads held first).kept _ _ tracks) later

end Host

theorem Course.scripted {host : Host} {m : Moment} {before : List Moment}
    (course : Course host (m :: before)) : m.session.held.imports.Scripted :=
  course.only Import.finds_scripts

namespace Session

variable {s t : Session} {factory : EngineFactory} {tree : FileTree} {d e : Document} {p : Path}
  {u : Snapshot}

/-- What an update that published a snapshot makes of a session: the snapshot is served from then
on, an engine that came up had it in view from its first question on, and of other paths only what
was missing is read. -/
structure Publishes (s : Session) (factory : EngineFactory) (tree : FileTree) (d : Document)
    (update : Update) (after : Session) : Prop where
  served : ∀ later, after.ask later (.snapshot d.path) =
    pure (.snapshot (some (s.incoming d)), after)
  told : ∀ later, after.ask later (.version d.path) = pure (.text (toString d.version), after)
  seen : ∀ start, update.start? = some start →
    ∀ query answer, (query, answer) ∈ factory.queries.zip start.answers →
      (∃ point : Held, point.tracked.get? d.path = some (s.incoming d) ∧
        answer = (s.host.ask tree point query).value.1) ∧
      (s.incoming d).SeenIn tree d.path query answer
  kept : ∀ p u, ¬ d.path.Same p → s.held.tracked.get? p = some u →
    after.held.tracked.get? p = some u
  added : ∀ p u, ¬ d.path.Same p → s.held.tracked.get? p = none →
    after.held.tracked.get? p = some u →
      u.origin = .disk ∧ ∃ q, (q ∈ update.asked factory.queries ∨ q ∈ update.told) ∧
        q.Same p ∧ s.host.fromTree? tree q = some u

theorem ask_snapshot_of_held (held : t.held.tracked.get? p.real = some u) (later : FileTree) :
    t.ask later (.snapshot p) = pure (.snapshot (some u), t) := by
  simp only [ask, Host.ask, Host.track, Host.snapshot?_of_held held, pure_bind]

theorem ask_version_of_held (held : t.held.tracked.get? p.real = some u) (later : FileTree) :
    t.ask later (.version p) = pure (.text u.versionText, t) := by
  simp only [ask, Host.ask, Host.track, Host.version, Host.snapshot?_of_held held, pure_bind]
  rfl

theorem versionText_incoming (s : Session) (d : Document) :
    (s.incoming d).versionText = toString d.version := by
  simp only [Snapshot.versionText, incoming, Snapshot.origin_ofDocument,
    Snapshot.version_ofDocument]

/-- Once a document's snapshot is held under a plain path, it is what is served and told of it. -/
theorem ask_incoming (plain : d.path.isConverted = false)
    (held : t.held.tracked.get? d.path = some (s.incoming d)) (later : FileTree) :
    t.ask later (.snapshot d.path) = pure (.snapshot (some (s.incoming d)), t) ∧
      t.ask later (.version d.path) = pure (.text (toString d.version), t) := by
  rw [← Path.real_eq_self plain] at held
  refine ⟨ask_snapshot_of_held held later, ?_⟩
  rw [← s.versionText_incoming]
  exact ask_version_of_held held later

theorem alreadyPublished_iff : s.alreadyPublished d = true ↔
    ∃ u, s.held.tracked.get? d.path = some u ∧ u.origin = .editor ∧ u.version = d.version := by
  unfold alreadyPublished
  cases s.held.tracked.get? d.path <;> simp

theorem publishes (plain : ∀ q : Path, q.Same d.path → q.isConverted = false)
    (scripted : s.held.imports.Scripted) (fresh : s.alreadyPublished d = false)
    {handle : EngineHandle} (ok : (s.update factory tree d).value.1.outcome = .ok handle) :
    s.Publishes factory tree d (s.update factory tree d).value.1
      (s.update factory tree d).value.2 := by
  have own := plain d.path (.refl _)
  have published : (s.published d).tracked.get? d.path = some (s.incoming d) :=
    get?_published_of_same (.refl _)
  have case := update_updates s factory tree d
  generalize (s.update factory tree d).value = result at case ok ⊢
  cases case with
  | passedOver again =>
    rw [fresh] at again
    cases again
  | accepted _ fits =>
    refine ⟨fun later => (ask_incoming own published later).1,
      fun later => (ask_incoming own published later).2, ?_, ?_, ?_⟩
    · intro start started
      cases started
    · intro p u apart before
      exact (get?_published_of_not_same apart).trans before
    · intro p u apart missing after
      cases missing.symm.trans ((get?_published_of_not_same apart).symm.trans after)
  | restarted _ clash up =>
    -- the engine's questions only add to what was published ahead of them
    have still := (trial_loads s factory tree d).kept _ _ published
    refine ⟨fun later => (ask_incoming own still later).1,
      fun later => (ask_incoming own still later).2, ?_, ?_, ?_⟩
    · rintro start ⟨⟩ query answer asked
      have imports : (s.published d).imports.Scripted := scripted
      exact Host.askAll_seen plain imports published asked
    · intro p u apart before
      exact get?_trial_of_not_same apart before
    · intro p u apart missing after
      have unread := (get?_published_of_not_same apart).trans missing
      obtain ⟨q, wanted, same, read⟩ := (trial_loads s factory tree d).read p u unread after
      exact ⟨Host.origin_of_fromTree? read, q, List.mem_append.mp wanted, same, read⟩
  | takenBack _ clash cause down => cases ok

theorem held_of_ok {handle : EngineHandle}
    (ok : (s.update factory tree d).value.1.outcome = .ok handle) :
    (s.update factory tree d).value.2.handle = handle ∧
      (s.update factory tree d).value.2.alreadyPublished d = true := by
  have own : (s.incoming d).origin = .editor ∧ (s.incoming d).version = d.version :=
    ⟨Snapshot.origin_ofDocument .., Snapshot.version_ofDocument ..⟩
  have case := update_updates s factory tree d
  generalize (s.update factory tree d).value = result at case ok ⊢
  cases case with
  | passedOver again =>
    cases ok
    exact ⟨rfl, again⟩
  | accepted fresh fits =>
    cases ok
    exact ⟨rfl, alreadyPublished_iff.mpr ⟨_, get?_published_of_same (.refl _), own⟩⟩
  | restarted fresh clash up =>
    cases ok
    exact ⟨rfl, alreadyPublished_iff.mpr ⟨_, get?_trial_of_same (.refl _), own⟩⟩
  | takenBack fresh clash cause down => cases ok

theorem update_again (published : s.alreadyPublished d = true) (same : e.path.Same d.path)
    (version : e.version = d.version) (later : EngineFactory) (files : FileTree) :
    s.update later files e = pure (⟨.ok s.handle, none⟩, s) := by
  obtain ⟨u, held, editor, numbered⟩ := alreadyPublished_iff.mp published
  rw [← s.held.tracked.get?_congr same.rank_eq] at held
  have again : s.alreadyPublished e = true :=
    alreadyPublished_iff.mpr ⟨u, held, editor, numbered.trans version.symm⟩
  rw [update, if_pos again]

end Session

/-- An update that is answered with an engine either was of the version that the editor gave before,
or published its snapshot. Either way the same version is passed over from then on, and a snapshot
from disk never stands in for one of the editor's. -/
theorem Course.update_publishes {host : Host} {m : Moment} {before : List Moment}
    (course : Course host (m :: before)) (factory : EngineFactory) (tree : FileTree)
    (d : Document) :
    let updated := (m.session.update factory tree d).value
    (∀ handle, updated.1.outcome = .ok handle →
      (m.session.alreadyPublished d = false →
        (∀ q : Path, q.Same d.path → q.isConverted = false) →
          m.session.Publishes factory tree d updated.1 updated.2) ∧
      ∀ (again : EngineFactory) (files : FileTree) (e : Document), e.path.Same d.path →
        e.version = d.version →
          updated.2.update again files e = pure (⟨.ok handle, none⟩, updated.2)) ∧
    (m.session.alreadyPublished d = true ↔ ∃ u, m.held? d.path = some u ∧ u.origin = .editor ∧
      u.version = d.version) := by
  intro updated
  refine ⟨fun handle ok => ⟨fun fresh plain => ?_, ?_⟩, Session.alreadyPublished_iff⟩
  · exact Session.publishes plain course.scripted fresh ok
  · intro again files e same version
    obtain ⟨rfl, published⟩ := Session.held_of_ok ok
    exact Session.update_again published same version again files

/-- The component that is open comes in another dialect, and the new engine asks for it at once. -/
theorem Course.update_publishes_edited :
    let d : Document := ⟨Sample.app, 2, "ts"⟩
    let factory : EngineFactory := ⟨[.dialect Sample.app, .contents (Sample.app.withEnding ".ts")],
      none, 1⟩
    let updated := (Sample.edited.session.update factory (Sample.disk "js") d).value
    Course Sample.host [Sample.edited, Sample.opened] ∧
    updated.1.outcome = .ok ⟨1, 1⟩ ∧
    updated.1.start?.map EngineStart.answers = some [.dialect .tsx, .contents (some "ts")] ∧
    (∀ later, updated.2.ask later (.version Sample.app) = pure (.text "2", updated.2)) ∧
    updated.2.update ⟨[], some "down", 2⟩ (Sample.disk "js") ⟨Sample.app, 2, "js"⟩ =
      pure (⟨.ok ⟨1, 1⟩, none⟩, updated.2) := by
  intro d factory updated
  have course : Course Sample.host [Sample.edited, Sample.opened] :=
    Sample.course_closed.moved_inv.1
  have ok : updated.1.outcome = .ok ⟨1, 1⟩ := rfl
  obtain ⟨published, -⟩ := course.update_publishes factory (Sample.disk "js") d
  obtain ⟨publishes, again⟩ := published _ ok
  have plain : ∀ q : Path, q.Same d.path → q.isConverted = false :=
    fun q same => same.isConverted_of_isTemplated (by decide)
  have fresh : Sample.edited.session.alreadyPublished d = false := by decide
  exact ⟨course, ok, rfl, (publishes fresh plain).told, again _ _ _ (.refl _) rfl⟩

/-- The new engine reads the open component by its own path, and is given what is saved. -/
theorem Course.update_read_saved :
    let d : Document := ⟨Sample.app, 2, "ts"⟩
    let factory : EngineFactory := ⟨[.isFile Sample.app, .contents Sample.app], none, 1⟩
    let updated := (Sample.edited.session.update factory (Sample.disk "js") d).value
    Course Sample.host [Sample.edited, Sample.opened] ∧
    (∀ q : Path, q.Same d.path → q.isConverted = false) ∧
    Sample.edited.session.alreadyPublished d = false ∧ updated.1.outcome = .ok ⟨1, 1⟩ ∧
    (Sample.edited.session.incoming d).text = "ts" ∧
    updated.1.start?.map EngineStart.answers = some [.flag true, .contents (some "js")] := by
  refine ⟨Sample.course_closed.moved_inv.1, fun q same => ?_, by decide, rfl, rfl, rfl⟩
  exact same.isConverted_of_isTemplated (by decide)

end ComponentProjects
