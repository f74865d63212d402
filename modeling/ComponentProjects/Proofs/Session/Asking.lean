import Mathlib.Logic.Relation
import ComponentProjects.Proofs.Import.Memory
import ComponentProjects.Proofs.Session.Course

/-! What is asked in a move and what comes of it. An import that nothing is remembered for is
searched for in the files of the move that asks for it, and what the search comes to is remembered
and answered. A file that nothing is tracked for is read in the same way. -/
namespace ComponentProjects

namespace ImportCache

variable {view : FileTree} {options : Options} {cache : ImportCache}

theorem get?_resolve (request q : ImportRequest) :
    (cache.resolve view options request).value.2.get? q = (cache.get? q).or
      (if rank request = rank q then
        some (Import.search view options request.specifier request.importer).value
      else none) := by
  cases here : cache.get? request with
  | some known =>
    rw [resolve_of_cached here]
    split
    · rename_i same
      simp [← Table.get?_congr cache same, here]
    · simp
  | none =>
    rw [resolve_of_missing here, Table.get?_insert]
    split
    · rename_i same
      simp [← Table.get?_congr cache same, here]
    · simp

/-- All that is remembered to have been found is of one kind. -/
def Only (kind : Resolution → Prop) (cache : ImportCache) : Prop :=
  ∀ request r, cache.get? request = some (some r) → kind r

end ImportCache

/-- All that searches find is of one kind. -/
def Import.Finds (kind : Resolution → Prop) : Prop :=
  ∀ tree options specifier importer r,
    (search tree options specifier importer).value = some r → kind r

theorem ImportCache.Only.resolve {kind : Resolution → Prop} {cache : ImportCache}
    (finds : Import.Finds kind) (only : cache.Only kind) (tree : FileTree) (options : Options)
    (request : ImportRequest) : (cache.resolve tree options request).value.2.Only kind := by
  intro q r cached
  rw [get?_resolve] at cached
  rcases Option.or_eq_some_iff.mp cached with before | ⟨-, now⟩
  · exact only q r before
  · split at now
    · exact finds _ _ _ _ _ (Option.some.inj now)
    · cases now

/-- A question about what a specifier names in a file, however the file is spelled. -/
def Query.Asks (request : ImportRequest) : Query → Prop
  | .resolve specifiers importer =>
    request.specifier ∈ specifiers ∧ importer.Same request.importer
  | _ => False

/-- What a search comes to for a request that a question asks. -/
def Query.searched? (view : FileTree) (options : Options) (request : ImportRequest) :
    Query → Option (Option Resolution)
  | .resolve specifiers importer =>
    if request.specifier ∈ specifiers ∧ importer.Same request.importer then
      some (Import.search view options request.specifier importer).value
    else none
  | _ => none

namespace Query

variable {view : FileTree} {options : Options} {request : ImportRequest} {query : Query}
  {found : Option Resolution}

theorem searched?_eq_some_iff : query.searched? view options request = some found ↔
    ∃ specifiers importer, query = .resolve specifiers importer ∧ query.Asks request ∧
      found = (Import.search view options request.specifier importer).value := by
  cases query with
  | resolve specifiers importer =>
    simp only [searched?, Asks, Query.resolve.injEq]
    split
    · rename_i asked
      simp [asked, eq_comm]
    · rename_i unasked
      simp [unasked]
  | _ => simp [searched?]

theorem searched?_eq_none_iff : query.searched? view options request = none ↔
    ¬ query.Asks request := by
  cases query <;> simp [searched?, Asks]

end Query

namespace Host

variable {host : Host} {tree : FileTree} {held : Held} {request : ImportRequest}

theorem get?_resolveAll (view : FileTree) (options : Options)
    (dialectOf : Path → σ → Noted (Dialect × σ)) (importer : Path) (specifiers : List String)
    (cache : ImportCache) (given : σ) (request : ImportRequest) :
    (resolveAll view options dialectOf importer specifiers cache given).value.2.1.get? request =
      (cache.get? request).or
        ((Query.resolve specifiers importer).searched? view options request) := by
  induction specifiers generalizing cache given with
  | nil => simp [resolveAll, Query.searched?]
  | cons specifier rest ih =>
    rw [resolveAll_cons]
    simp only [ih, ImportCache.get?_resolve, ImportCache.rank_request_iff, Query.searched?,
      Option.or_assoc]
    congr 1
    by_cases same : importer.Same request.importer
    · by_cases here : specifier = request.specifier
      · subst here
        simp [same]
      · simp [same, here, Ne.symm here]
    · simp [same]

theorem get?_ask (host : Host) (tree : FileTree) (held : Held) (query : Query)
    (request : ImportRequest) :
    (host.ask tree held query).value.2.imports.get? request = (held.imports.get? request).or
      (query.searched? (host.view tree) host.configuration.options request) := by
  cases query with
  | resolve specifiers importer => exact get?_resolveAll ..
  | _ => exact Option.or_none.symm

theorem get?_askAll (held : Held) (queries : List Query) (request : ImportRequest) :
    (host.askAll tree held queries).value.2.imports.get? request =
      (held.imports.get? request).or (queries.findSome? fun query =>
        query.searched? (host.view tree) host.configuration.options request) := by
  induction queries generalizing held with
  | nil => simp [askAll]
  | cons query rest ih =>
    rw [askAll_cons]
    simp only [ih, get?_ask, List.findSome?_cons, Option.or_assoc]
    cases query.searched? (host.view tree) host.configuration.options request <;> rfl

theorem ask_only {kind : Resolution → Prop} (finds : Import.Finds kind)
    (only : held.imports.Only kind) (query : Query) :
    (host.ask tree held query).value.2.imports.Only kind := by
  intro q r cached
  rw [get?_ask] at cached
  rcases Option.or_eq_some_iff.mp cached with before | ⟨-, now⟩
  · exact only q r before
  · obtain ⟨specifiers, importer, -, -, searched⟩ := Query.searched?_eq_some_iff.mp now
    exact finds _ _ _ _ _ searched.symm

theorem askAll_only {kind : Resolution → Prop} (finds : Import.Finds kind)
    (only : held.imports.Only kind) (queries : List Query) :
    (host.askAll tree held queries).value.2.imports.Only kind :=
  askAll_invariant (P := (·.imports.Only kind)) (fun _ query only => ask_only finds only query)
    only queries

theorem length_askAll (held : Held) (queries : List Query) :
    (host.askAll tree held queries).value.1.length = queries.length := by
  induction queries generalizing held with
  | nil => rfl
  | cons query rest ih =>
    rw [askAll_cons]
    simp [ih]

theorem findSome?_zip_askAll (host : Host) (tree : FileTree) (held : Held) (queries : List Query)
    (seen : Query → Option α) :
    (queries.zip (host.askAll tree held queries).value.1).findSome? (fun exchange =>
      seen exchange.1) = queries.findSome? seen := by
  have all : (queries.zip (host.askAll tree held queries).value.1).map Prod.fst = queries :=
    List.map_fst_zip (Nat.le_of_eq (length_askAll held queries).symm)
  conv_rhs => rw [← all, List.findSome?_map]
  rfl

theorem resolveAll_shown (view : FileTree) (options : Options)
    (dialectOf : Path → σ → Noted (Dialect × σ)) (importer : Path) (specifiers : List String)
    (cache : ImportCache) (given : σ) :
    let resolved := (resolveAll view options dialectOf importer specifiers cache given).value
    List.Forall₂ (fun specifier entry => ∃ found,
      resolved.2.1.get? ⟨specifier, importer⟩ = some found ∧
        entry.map (·.file) = found.map (·.path.real)) specifiers resolved.1 := by
  induction specifiers generalizing cache given with
  | nil => exact .nil
  | cons specifier rest ih =>
    rw [resolveAll_cons]
    refine .cons ⟨(cache.resolve view options ⟨specifier, importer⟩).value.1, ?_, ?_⟩ (ih _ _)
    · simp [get?_resolveAll, ImportCache.resolve_caches]
    · cases (cache.resolve view options ⟨specifier, importer⟩).value.1 with
      | none => rfl
      | some r => exact congrArg some (file_handOut r dialectOf given)

/-- An answer to a batch of specifiers shows what is remembered for each of them. -/
def Shows (imports : ImportCache) (specifiers : List String) (importer : Path)
    (answer : Answer) : Prop :=
  ∃ entries, answer = .modules entries ∧ List.Forall₂ (fun specifier entry => ∃ found,
    imports.get? ⟨specifier, importer⟩ = some found ∧
      entry.map (·.file) = found.map (·.path.real)) specifiers entries

theorem ask_shows (held : Held) (specifiers : List String) (importer : Path) :
    let asked := (host.ask tree held (.resolve specifiers importer)).value
    Shows asked.2.imports specifiers importer asked.1 :=
  ⟨_, rfl, resolveAll_shown ..⟩

end Host

/-- The files that a move meets, if it meets any. -/
def Move.tree? : Move → Option FileTree
  | .update tree _ _ _ => some tree
  | .ask tree _ => some tree
  | .delete _ | .elsewhere => none

namespace Event

/-- What was asked in a move, also by an engine that did not come up, with the answers. -/
def exchanged : Event → List (Query × Answer)
  | .opened queries start => queries.zip start.answers
  | .updated _ queries update => update.start?.elim [] fun start => queries.zip start.answers
  | .asked query answer => [(query, answer)]
  | _ => []

def Asks (request : ImportRequest) (event : Event) : Prop :=
  ∃ exchange ∈ event.exchanged, exchange.1.Asks request

def Spares (path : Path) (event : Event) : Prop :=
  ∀ d, event.document? = some d → ¬ d.path.Same path

def Deletes (path : Path) : Event → Prop
  | .deleted gone => gone.Same path
  | _ => False

end Event

namespace Moment

variable {m : Moment} {move : Move} {request : ImportRequest} {query : Query} {answer : Answer}

def remembered? (m : Moment) (request : ImportRequest) : Option (Option Resolution) :=
  m.session.held.imports.get? request

def searched? (m : Moment) (move : Move) (request : ImportRequest) :
    Option (Option Resolution) :=
  move.tree?.bind fun tree => (m.next move).event.exchanged.findSome? fun exchange =>
    exchange.1.searched? (m.session.host.view tree) m.session.host.configuration.options request

/-- What nothing is remembered for is remembered from a move as it is searched for in it. -/
theorem remembered?_next (missing : m.remembered? request = none) (move : Move) :
    (m.next move).remembered? request = m.searched? move request := by
  have still : m.session.held.imports.get? request = none := missing
  cases move with
  | update tree queries failure? d =>
    have trial : (m.session.trial ⟨queries, failure?, m.built⟩ tree d).2.imports.get? request =
        queries.findSome? fun query => query.searched? (m.session.host.view tree)
          m.session.host.configuration.options request := by
      simp only [Session.trial, Host.get?_askAll, Session.published, still, Option.none_or]
    have case := Session.update_updates m.session ⟨queries, failure?, m.built⟩ tree d
    simp only [remembered?, searched?, Move.tree?, Option.bind_some, next]
    generalize (m.session.update ⟨queries, failure?, m.built⟩ tree d).value = result at case ⊢
    cases case with
    | passedOver again => exact still
    | accepted fresh fits => exact still
    | restarted fresh clash up => exact trial.trans (Host.findSome?_zip_askAll ..).symm
    | takenBack fresh clash cause down => exact trial.trans (Host.findSome?_zip_askAll ..).symm
  | delete path =>
    refine Option.eq_none_iff_forall_ne_some.mpr fun answer kept => ?_
    have before := Table.get?_of_filter kept
    rw [still] at before
    cases before
  | ask tree query =>
    have kept := m.session.host.get?_ask tree m.session.held query request
    rw [still, Option.none_or] at kept
    refine Eq.trans kept ?_
    simp only [searched?, Move.tree?, Option.bind_some, next, Event.exchanged, List.findSome?_cons,
      List.findSome?_nil]
    split <;> simp_all
  | elsewhere => exact still

theorem searched?_of_not_asks (unasked : ¬ (m.next move).event.Asks request) :
    m.searched? move request = none := by
  refine Option.bind_eq_none_iff.mpr fun tree _ => List.findSome?_eq_none_iff.mpr ?_
  intro exchange member
  exact Query.searched?_eq_none_iff.mpr fun asks => unasked ⟨exchange, member, asks⟩

theorem searched?_of_asks (asks : (m.next move).event.Asks request) :
    ∃ tree specifiers spelling answer, move.tree? = some tree ∧
      (.resolve specifiers spelling, answer) ∈ (m.next move).event.exchanged ∧
      request.specifier ∈ specifiers ∧ spelling.Same request.importer ∧
      m.searched? move request = some (Import.search (m.session.host.view tree)
        m.session.host.configuration.options request.specifier spelling).value := by
  obtain ⟨exchange, member, asked⟩ := asks
  -- a move without files asks nothing
  obtain ⟨tree, files⟩ : ∃ tree, move.tree? = some tree := by
    cases move with
    | update tree queries failure? d => exact ⟨tree, rfl⟩
    | ask tree query => exact ⟨tree, rfl⟩
    | delete path => cases member
    | elsewhere => cases member
  have some : (m.searched? move request).isSome = true := by
    rw [searched?, files, Option.bind_some, List.findSome?_isSome_iff]
    refine ⟨exchange, member, Option.isSome_iff_ne_none.mpr fun none => ?_⟩
    exact Query.searched?_eq_none_iff.mp none asked
  obtain ⟨found, search⟩ := Option.isSome_iff_exists.mp some
  have first := search
  rw [searched?, files, Option.bind_some] at first
  obtain ⟨⟨query, answer⟩, among, here⟩ := List.exists_of_findSome?_eq_some first
  obtain ⟨specifiers, spelling, rfl, ⟨inside, same⟩, rfl⟩ := Query.searched?_eq_some_iff.mp here
  exact ⟨tree, specifiers, spelling, answer, files, among, inside, same, search⟩

/-- Each answer of a move was given at some point of it, and what is held after the move follows
from there, but for what is taken back of a document that the editor gave. -/
theorem exists_point_of_exchanged
    (exchanged : (query, answer) ∈ (m.next move).event.exchanged) :
    ∃ (tree : FileTree) (point : Held) (rest : List Query),
      let asked := (m.session.host.ask tree point query).value
      let last := (m.session.host.askAll tree asked.2 rest).value.2
      answer = asked.1 ∧ (m.next move).session.held.imports = last.imports ∧
      (m.session.Filed → ∀ p, (m.next move).event.Spares p →
        (m.next move).held? p = last.tracked.get? p) := by
  cases move with
  | update tree queries failure? d =>
    have case := Session.update_updates m.session ⟨queries, failure?, m.built⟩ tree d
    simp only [next] at exchanged ⊢
    generalize (m.session.update ⟨queries, failure?, m.built⟩ tree d).value = result
      at case exchanged ⊢
    cases case with
    | passedOver again => cases exchanged
    | accepted fresh fits => cases exchanged
    | restarted fresh clash up =>
      obtain ⟨point, rest, given, last⟩ := Host.exists_point_of_mem_zip exchanged
      exact ⟨tree, point, rest, given, congrArg Held.imports last,
        fun _ p _ => congrArg (fun held : Held => held.tracked.get? p) last⟩
    | takenBack fresh clash cause down =>
      obtain ⟨point, rest, given, last⟩ := Host.exists_point_of_mem_zip exchanged
      have imports := congrArg Held.imports last
      refine ⟨tree, point, rest, given, imports, fun filed p spares => ?_⟩
      have apart : ¬ d.path.Same p := spares d rfl
      refine Eq.trans ?_ (congrArg (fun held : Held => held.tracked.get? p) last)
      exact (Session.get?_rolledBack filed p).trans (if_neg apart)
  | delete path => cases exchanged
  | ask tree asked =>
    cases List.mem_singleton.mp exchanged
    exact ⟨tree, m.session.held, [], rfl, rfl, fun _ _ _ => rfl⟩
  | elsewhere => cases exchanged

theorem shows_of_exchanged {specifiers : List String} {importer : Path}
    (exchanged : (.resolve specifiers importer, answer) ∈ (m.next move).event.exchanged) :
    Host.Shows (m.next move).session.held.imports specifiers importer answer := by
  obtain ⟨tree, point, rest, rfl, last, -⟩ := exists_point_of_exchanged exchanged
  obtain ⟨entries, answered, shown⟩ := m.session.host.ask_shows point specifiers importer
  refine ⟨entries, answered, shown.imp ?_⟩
  rintro specifier entry ⟨found, cached, file⟩
  refine ⟨found, ?_, file⟩
  rw [last, Host.get?_askAll, cached, Option.some_or]

/-- A snapshot that an engine is answered with is held from then on, unless the editor gives its
path another. -/
theorem answer_of_exchanged {q p : Path} (filed : m.session.Filed)
    (spares : (m.next move).event.Spares p) (same : q.real.Same p)
    (exchanged : (.snapshot q, answer) ∈ (m.next move).event.exchanged) :
    answer = .snapshot none ∨
      ∃ u, answer = .snapshot (some u) ∧ (m.next move).held? p = some u := by
  obtain ⟨tree, point, rest, answered, -, held⟩ := exists_point_of_exchanged exchanged
  rw [Host.ask_snapshot_value] at answered
  cases tracked : (m.session.host.ask tree point (.snapshot q)).value.2.tracked.get? q.real with
  | none =>
    rw [tracked] at answered
    exact .inl answered
  | some u =>
    rw [tracked] at answered
    refine .inr ⟨u, answered, ?_⟩
    rw [held filed p spares, ← Table.get?_congr _ same.rank_eq]
    exact (Host.askAll_loads _ rest).kept _ _ tracked

/-- What is held after a move was held before it, or was read in the files that the move meets. -/
theorem held?_next {p : Path} {u : Snapshot} (filed : m.session.Filed)
    (spares : (m.next move).event.Spares p) (held : (m.next move).held? p = some u) :
    m.held? p = some u ∨ m.held? p = none ∧ ∃ tree q, move.tree? = some tree ∧ q.Same p ∧
      m.session.host.fromTree? tree q = some u := by
  cases move with
  | update tree queries failure? d =>
    have apart : ¬ d.path.Same p := spares d rfl
    have unread := Session.get?_published_of_not_same (s := m.session) apart
    -- a document of another path leaves it to the engine's questions what is read for this one
    have trial (held : (m.session.trial ⟨queries, failure?, m.built⟩ tree d).2.tracked.get? p =
        some u) : m.held? p = some u ∨ m.held? p = none ∧ ∃ met q, some tree = some met ∧
          q.Same p ∧ m.session.host.fromTree? met q = some u := by
      rcases (Session.trial_loads ..).held_or_read held with stayed | ⟨missing, q, same, read⟩
      · exact .inl (unread.symm.trans stayed)
      · exact .inr ⟨unread.symm.trans missing, tree, q, rfl, same, read⟩
    have case := Session.update_updates m.session ⟨queries, failure?, m.built⟩ tree d
    simp only [held?, next] at held
    generalize (m.session.update ⟨queries, failure?, m.built⟩ tree d).value = result at case held
    cases case with
    | passedOver again => exact .inl held
    | accepted fresh fits => exact .inl (unread.symm.trans held)
    | restarted fresh clash up => exact trial held
    | takenBack fresh clash cause down =>
      rw [Session.get?_rolledBack filed, if_neg apart] at held
      exact trial held
  | delete path =>
    simp only [held?, next, Session.delete, Table.get?_erase] at held
    split at held
    · cases held
    · exact .inl held
  | ask tree query =>
    rcases (Host.ask_loads m.session.held query).held_or_read held with
      stayed | ⟨missing, q, same, read⟩
    · exact .inl stayed
    · exact .inr ⟨missing, tree, q, rfl, same, read⟩
  | elsewhere => exact .inl held

end Moment

theorem Course.only {host : Host} {m : Moment} {before : List Moment} {kind : Resolution → Prop}
    (course : Course host (m :: before)) (finds : Import.Finds kind) :
    m.session.held.imports.Only kind := by
  refine course.induct ?_ ?_
  · intro key factory tree session start up
    obtain ⟨-, -, rfl⟩ := Session.opened_eq up
    have nothing : Held.nothing.imports.Only kind := fun _ _ cached => by cases cached
    exact Host.askAll_only finds nothing factory.queries
  · intro m before move _ only
    cases move with
    | update tree queries failure? d =>
      have trial : (m.session.trial ⟨queries, failure?, m.built⟩ tree d).2.imports.Only kind :=
        Host.askAll_only finds (show (m.session.published d).imports.Only kind from only) _
      have case := Session.update_updates m.session ⟨queries, failure?, m.built⟩ tree d
      simp only [Moment.next]
      generalize (m.session.update ⟨queries, failure?, m.built⟩ tree d).value = result at case ⊢
      cases case with
      | passedOver again => exact only
      | accepted fresh fits => exact only
      | restarted fresh clash up => exact trial
      | takenBack fresh clash cause down => exact trial
    | delete path => exact fun q r cached => only q r (Table.get?_of_filter cached)
    | ask tree query => exact Host.ask_only finds only query
    | elsewhere => exact only

end ComponentProjects
