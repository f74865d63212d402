import ComponentProjects.Proofs.Session.Asking

/-! Which paths a session tracks. A question makes its host track the files that it is after and
that the tree has a text of, and nothing else is tracked by asking. So a path is tracked exactly if,
since it was last deleted, a document of it was published or it was read in that way. -/
namespace ComponentProjects

def FileTree.Reads (tree : FileTree) (path : Path) : Prop :=
  (tree.contents? path).value.isSome = true

/-- Exactly the paths tracked earlier are tracked later, and the wanted ones that can be read. -/
def Snapshots.Fills (tree : FileTree) (wanted : List Path) (before after : Snapshots) : Prop :=
  ∀ p, after.contains p = true ↔
    before.contains p = true ∨ ∃ q ∈ wanted, q.Same p ∧ tree.Reads q

namespace Snapshots

variable {tree : FileTree} {tracked before after later : Snapshots} {p q : Path}

theorem contains_congr (same : p.Same q) : tracked.contains p = tracked.contains q :=
  congrArg Option.isSome (tracked.get?_congr same.rank_eq)

theorem Fills.refl (tracked : Snapshots) : Fills tree [] tracked tracked := fun p => by simp

theorem Fills.trans {first second : List Path} (h : Fills tree first before after)
    (g : Fills tree second after later) : Fills tree (first ++ second) before later := by
  intro p
  rw [g p, h p, or_assoc]
  simp only [List.mem_append, or_and_right, exists_or]

end Snapshots

/-- What imports lead to has one of the endings that scripts have. -/
def Resolution.Known (r : Resolution) : Prop :=
  ∃ ending ∈ Import.knownEndings, r.path.endsWith ending = true

theorem Import.finds_known : Finds Resolution.Known := by
  intro tree options specifier importer r found
  obtain ⟨base, candidate⟩ := (found_of_search found).candidate
  exact exists_ending_of_candidate candidate

namespace Host

open Snapshots (Fills)

variable {host : Host} {tree : FileTree} {tracked : Snapshots}

theorem snapshot?_fills (host : Host) (tree : FileTree) (tracked : Snapshots) (path : Path) :
    Fills tree [path.real] tracked (host.snapshot? tree path tracked).value.2 := by
  intro p
  simp only [List.mem_singleton, exists_eq_left, FileTree.Reads,
    ← host.isSome_fromTree? path.isConverted_real]
  rw [snapshot?_value]
  split
  · rename_i s held
    have there : path.real.Same p → tracked.contains p = true := by
      intro same
      rw [← Snapshots.contains_congr same, Table.contains, held]
      rfl
    exact ⟨.inl, fun given => given.elim id fun wanted => there wanted.1⟩
  · rename_i missing unread
    simp [unread]
  · rename_i s missing read
    rw [Table.contains, Table.get?_insert]
    by_cases same : path.real.Same p
    · simp [same.rank_eq, same, read]
    · have apart : rank path.real ≠ rank p := same ∘ Path.rank_eq_iff_same.mp
      simp [apart, same, Table.contains]

/-- A component is tracked when an import is answered with it, and nothing is for any other file. -/
theorem handOut_fills (host : Host) (tree : FileTree) {r : Resolution} (known : r.Known)
    (tracked : Snapshots) :
    let handed := (r.handOut (host.dialect tree) tracked).value
    Fills tree ([handed.1.file].filter (·.endsWith ".widget")) tracked handed.2 := by
  intro handed
  have file : handed.1.file = r.path.real := file_handOut ..
  rw [file]
  cases converted : r.path.isConverted with
  | true =>
    have component := Path.endsWith_real converted
    have fills := host.snapshot?_fills tree tracked r.path.real
    rw [Path.real_real] at fills
    simp only [List.filter_cons, component, if_true, List.filter_nil, handed,
      handOut_of_converted converted]
    exact fills
  | false =>
    -- this is where the endings count: a script is never taken for a component
    obtain ⟨ending, among, ends⟩ := known
    have script := Import.not_component_of_known among ends
    simp only [Path.real_eq_self converted, List.filter_cons, script, List.filter_nil, handed,
      handOut_of_plain converted]
    exact .refl tracked

theorem resolveAll_fills (options : Options) (importer : Path) (specifiers : List String)
    {cache : ImportCache} (known : cache.Only Resolution.Known) (tracked : Snapshots) :
    let resolved := (resolveAll (host.view tree) options (host.dialect tree) importer specifiers
      cache tracked).value
    Fills tree (Answer.modules resolved.1).told tracked resolved.2.2 := by
  induction specifiers generalizing cache tracked with
  | nil => exact .refl tracked
  | cons specifier rest ih =>
    have still := known.resolve Import.finds_known (host.view tree) options ⟨specifier, importer⟩
    have cached : (cache.resolve (host.view tree) options ⟨specifier, importer⟩).value.2.get?
        ⟨specifier, importer⟩ = _ := ImportCache.resolve_caches _
    rw [resolveAll_cons]
    generalize (cache.resolve (host.view tree) options ⟨specifier, importer⟩).value = answered
      at still cached
    obtain ⟨answer, cache⟩ := answered
    cases answer with
    | none => exact ih still tracked
    | some r =>
      have first := host.handOut_fills tree (still _ r cached) tracked
      have both := first.trans (ih still _)
      rw [Answer.told, ← List.filter_append] at both
      exact both

theorem ask_fills (host : Host) (tree : FileTree) (held : Held)
    (known : held.imports.Only Resolution.Known) (query : Query) :
    let asked := (host.ask tree held query).value
    Fills tree (query.asked ++ asked.1.told) held.tracked asked.2.tracked := by
  cases query with
  | version path => exact host.snapshot?_fills tree _ path
  | snapshot path => exact host.snapshot?_fills tree _ path
  | dialect path => exact host.snapshot?_fills tree _ path
  | resolve specifiers importer =>
    exact resolveAll_fills host.configuration.options importer specifiers known held.tracked
  | contents path =>
    simp only [Query.asked, ask, track, contents?]
    split
    · exact host.snapshot?_fills tree _ path
    · exact .refl _
  | options => exact .refl _
  | fileNames => exact .refl _
  | directory => exact .refl _
  | isFile path => exact .refl _
  | files dir endings => exact .refl _
  | subdirectories dir => exact .refl _
  | isDirectory path => exact .refl _

theorem askAll_fills (host : Host) (tree : FileTree) (held : Held)
    (known : held.imports.Only Resolution.Known) (queries : List Query) :
    let asked := (host.askAll tree held queries).value
    Fills tree ((queries.zip asked.1).flatMap fun exchange => exchange.1.asked ++ exchange.2.told)
      held.tracked asked.2.tracked := by
  induction queries generalizing held with
  | nil => exact .refl _
  | cons query rest ih =>
    rw [askAll_cons]
    exact (host.ask_fills tree held known query).trans
      (ih _ (ask_only Import.finds_known known query))

end Host

namespace Event

/-- The files that were asked about in a move and the components that were told of, also to an
engine that did not come up. -/
def wanted (event : Event) : List Path :=
  event.exchanged.flatMap fun exchange => exchange.1.asked ++ exchange.2.told

/-- An update of a path that was answered with an engine. -/
def Publishes (path : Path) : Event → Prop
  | .updated d _ update => update.outcome.isOk = true ∧ d.path.Same path
  | _ => False

end Event

/-- A moment with the files that were met on the way to it. -/
structure Scene where
  tree? : Option FileTree
  moment : Moment

namespace Scene

def next (l : Scene) (move : Move) : Scene := ⟨move.tree?, l.moment.next move⟩

/-- A question found a path on disk. In an update its own path is not read there, as the document
stands in its place while the engine asks. -/
def Loads (s : Scene) (path : Path) : Prop :=
  s.moment.event.Spares path ∧
    ∃ tree, s.tree? = some tree ∧ ∃ q ∈ s.moment.event.wanted, q.Same path ∧ tree.Reads q

def Brings (s : Scene) (path : Path) : Prop := s.moment.event.Publishes path ∨ s.Loads path

variable {s : Scene} {path : Path}

theorem not_brings_of_unread (unpublished : ¬ s.moment.event.Publishes path)
    (none : s.tree? = none) : ¬ s.Brings path := by
  rintro (published | ⟨-, tree, met, -⟩)
  · exact unpublished published
  · rw [none] at met
    cases met

theorem brings_iff_of_spares {tree : FileTree} (unpublished : ¬ s.moment.event.Publishes path)
    (spares : s.moment.event.Spares path) (met : s.tree? = some tree) :
    s.Brings path ↔ ∃ q ∈ s.moment.event.wanted, q.Same path ∧ tree.Reads q := by
  simp [Brings, Loads, unpublished, spares, met]

end Scene

/-- The course of a session, with the files that each move met. -/
inductive Record (host : Host) : List Scene → Prop where
  | opened (key : ProjectKey) (factory : EngineFactory) (tree : FileTree) (session : Session)
      (start : EngineStart)
      (up : (Session.new key host factory tree).value = (.ok session, start)) :
    Record host [⟨some tree, session, factory.afterStart.built, .opened factory.queries start⟩]
  | moved {l : Scene} {before : List Scene} (record : Record host (l :: before)) (move : Move) :
    Record host (l.next move :: l :: before)

/-- Some scene brought a path, and since then it was not deleted. -/
def Brought (scenes : List Scene) (path : Path) : Prop :=
  ∃ later s earlier, scenes = later ++ s :: earlier ∧ s.Brings path ∧
    ∀ e ∈ later, ¬ e.moment.event.Deletes path

def Moment.Tracks (m : Moment) (path : Path) : Prop := (m.held? path).isSome = true

variable {host : Host} {l s : Scene} {m : Moment} {before scenes : List Scene} {p : Path}

theorem not_brought_nil : ¬ Brought [] p := by
  rintro ⟨later, s, earlier, whole, -⟩
  simp at whole

theorem brought_cons : Brought (s :: before) p ↔
    s.Brings p ∨ Brought before p ∧ ¬ s.moment.event.Deletes p := by
  constructor
  · rintro ⟨later, t, earlier, whole, brings, spared⟩
    rcases List.cons_eq_append_iff.mp whole with ⟨rfl, here⟩ | ⟨rest, rfl, tail⟩
    · cases here
      exact .inl brings
    · refine .inr ⟨⟨rest, t, earlier, tail, brings, fun e late => spared e (.tail _ late)⟩, ?_⟩
      exact spared s List.mem_cons_self
  · rintro (brings | ⟨⟨later, t, earlier, rfl, brings, spared⟩, kept⟩)
    · exact ⟨[], s, before, rfl, brings, fun e late => by cases late⟩
    · refine ⟨s :: later, t, earlier, rfl, brings, fun e late => ?_⟩
      rcases List.mem_cons.mp late with rfl | late
      · exact kept
      · exact spared e late

theorem Record.course (record : Record host scenes) : Course host (scenes.map (·.moment)) := by
  induction record with
  | opened key factory tree session start up => exact .opened key factory tree session start up
  | moved record move ih => exact .moved ih move

namespace Moment

variable {tree : FileTree} {queries : List Query} {failure? : Option String} {d : Document}

/-- An update that is refused leaves its own path as it was. -/
theorem tracks_updated_of_same (filed : m.session.Filed) (same : d.path.Same p) :
    (m.next (.update tree queries failure? d)).Tracks p ↔
      (m.next (.update tree queries failure? d)).event.Publishes p ∨ m.Tracks p := by
  have case := Session.update_updates m.session ⟨queries, failure?, m.built⟩ tree d
  simp only [Tracks, held?, next]
  generalize (m.session.update ⟨queries, failure?, m.built⟩ tree d).value = result at case ⊢
  cases case with
  | passedOver again =>
    have held : m.session.held.tracked.contains d.path = true := Option.isSome_of_any again
    rw [Snapshots.contains_congr same] at held
    exact ⟨.inr, fun _ => held⟩
  | accepted fresh fits =>
    simp [Session.get?_published_of_same same, Event.Publishes, same, Except.isOk, Except.toBool]
  | restarted fresh clash up =>
    simp [Session.get?_trial_of_same same, Event.Publishes, same, Except.isOk, Except.toBool]
  | takenBack fresh clash cause down =>
    simp [Session.get?_rolledBack filed, same, Event.Publishes, Except.isOk, Except.toBool]

/-- Of any other path an update only reads what its engine asks for. -/
theorem tracks_updated_of_not_same (filed : m.session.Filed)
    (known : m.session.held.imports.Only Resolution.Known) (apart : ¬ d.path.Same p) :
    (m.next (.update tree queries failure? d)).Tracks p ↔ m.Tracks p ∨
      ∃ q ∈ (m.next (.update tree queries failure? d)).event.wanted, q.Same p ∧ tree.Reads q := by
  have fills := m.session.host.askAll_fills tree (m.session.published d) known queries p
  have case := Session.update_updates m.session ⟨queries, failure?, m.built⟩ tree d
  simp only [Tracks, held?, next]
  generalize (m.session.update ⟨queries, failure?, m.built⟩ tree d).value = result at case ⊢
  have unread := Session.get?_published_of_not_same (s := m.session) apart
  rw [Table.contains, Table.contains, unread] at fills
  cases case with
  | passedOver again => simp [Event.wanted, Event.exchanged]
  | accepted fresh fits => simp [Event.wanted, Event.exchanged, unread]
  | restarted fresh clash up => exact fills
  | takenBack fresh clash cause down =>
    rw [Session.get?_rolledBack filed, if_neg apart]
    exact fills

theorem tracks_deleted {path : Path} :
    (m.next (.delete path)).Tracks p ↔ m.Tracks p ∧ ¬ path.Same p := by
  simp only [Tracks, held?, next, Session.delete, Table.get?_erase]
  by_cases same : path.Same p
  · simp [same.rank_eq, same]
  · have apart : rank path ≠ rank p := same ∘ Path.rank_eq_iff_same.mp
    simp [apart, same]

theorem tracks_asked {query : Query} (known : m.session.held.imports.Only Resolution.Known) :
    (m.next (.ask tree query)).Tracks p ↔ m.Tracks p ∨
      ∃ q ∈ (m.next (.ask tree query)).event.wanted, q.Same p ∧ tree.Reads q := by
  have wanted : (m.next (.ask tree query)).event.wanted =
      query.asked ++ (m.session.host.ask tree m.session.held query).value.1.told :=
    List.append_nil _
  rw [wanted]
  exact m.session.host.ask_fills tree m.session.held known query p

end Moment

theorem Scene.tracks_next (filed : l.moment.session.Filed)
    (known : l.moment.session.held.imports.Only Resolution.Known) (move : Move) (p : Path) :
    (l.next move).moment.Tracks p ↔
      (l.next move).Brings p ∨ l.moment.Tracks p ∧ ¬ (l.next move).moment.event.Deletes p := by
  cases move with
  | update tree queries failure? d =>
    have spares : (l.next (.update tree queries failure? d)).moment.event.Spares p ↔
        ¬ d.path.Same p :=
      ⟨fun spares => spares d rfl, fun apart e sent => by cases sent; exact apart⟩
    have kept : ¬ (l.next (.update tree queries failure? d)).moment.event.Deletes p := id
    by_cases same : d.path.Same p
    · refine (Moment.tracks_updated_of_same filed same).trans ?_
      simp only [Brings, Loads, spares, same, not_true, false_and, or_false, kept,
        not_false_eq_true, and_true]
      exact Iff.rfl
    · have other : ¬ (l.next (.update tree queries failure? d)).moment.event.Publishes p :=
        fun published => same published.2
      rw [brings_iff_of_spares other (spares.mpr same) rfl, and_iff_left kept, or_comm]
      exact Moment.tracks_updated_of_not_same filed known same
  | delete path =>
    have quiet : ¬ (l.next (.delete path)).Brings p := not_brings_of_unread id rfl
    exact Moment.tracks_deleted.trans (or_iff_right quiet).symm
  | ask tree query =>
    have spares : (l.next (.ask tree query)).moment.event.Spares p := fun d sent => by cases sent
    have kept : ¬ (l.next (.ask tree query)).moment.event.Deletes p := id
    rw [brings_iff_of_spares id spares rfl, and_iff_left kept, or_comm]
    exact Moment.tracks_asked known
  | elsewhere =>
    have quiet : ¬ (l.next .elsewhere).Brings p := not_brings_of_unread id rfl
    have kept : ¬ (l.next .elsewhere).moment.event.Deletes p := id
    rw [or_iff_right quiet, and_iff_left kept]
    exact Iff.rfl

theorem Record.tracks_iff (record : Record host (l :: before))
    (keeps : host.newDocument.KeepsPath) (p : Path) :
    l.moment.Tracks p ↔ Brought (l :: before) p := by
  generalize whole : l :: before = scenes at record
  induction record generalizing l before with
  | opened key factory tree session start up =>
    cases whole
    obtain ⟨-, answers, rfl⟩ := Session.opened_eq up
    have nothing : Held.nothing.imports.Only Resolution.Known := fun _ _ cached => by cases cached
    have fills := host.askAll_fills tree .nothing nothing factory.queries p
    rw [← answers] at fills
    have spares : (Event.opened factory.queries start).Spares p := fun d sent => by cases sent
    have empty : ¬ (∅ : Snapshots).contains p = true := by simp [Table.contains]
    rw [brought_cons, Scene.brings_iff_of_spares id spares rfl,
      or_iff_left fun earlier => not_brought_nil earlier.1]
    exact fills.trans (or_iff_right empty)
  | moved record move ih =>
    cases whole
    have filed := record.course.filed keeps
    rw [brought_cons, ← ih rfl]
    exact Scene.tracks_next filed (record.course.only Import.finds_known) move p

end ComponentProjects
