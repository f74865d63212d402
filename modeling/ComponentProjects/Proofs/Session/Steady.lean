import ComponentProjects.Proofs.Import.Memory
import ComponentProjects.Proofs.Session.Course

/-! Sessions over files that stay as they are. What the host remembers of an import was found among
those files, and a component's dialect is asked for anew each time, so the modules that an engine is
answered with are there and are read as they are at that moment. -/
namespace ComponentProjects

namespace ImportCache

/-- A search that comes to nothing does so under every spelling of the importing file. -/
def SpelledAlike (view : FileTree) (options : Options) : Prop :=
  ∀ (specifier : String) (p q : Path), p.Same q →
    (Import.search view options specifier p).value.isSome =
      (Import.search view options specifier q).value.isSome

/-- What is remembered for a request was found, and that nothing was found is remembered only where
a search comes to nothing. -/
structure Sound (view : FileTree) (options : Options) (cache : ImportCache) : Prop where
  found : ∀ request r, cache.get? request = some (some r) → Import.Found view r.path
  isSome_eq : ∀ request answer, cache.get? request = some answer → answer.isSome =
    (Import.search view options request.specifier request.importer).value.isSome

variable {view : FileTree} {options : Options} {cache : ImportCache}

theorem sound_empty : Sound view options ∅ where
  found _ _ cached := by cases cached
  isSome_eq _ _ cached := by cases cached

theorem Sound.purge (sound : Sound view options cache) (path : Path) :
    Sound view options (cache.purge path) where
  found request r cached := sound.found request r (Table.get?_of_filter cached)
  isSome_eq request answer cached := sound.isSome_eq request answer (Table.get?_of_filter cached)

theorem Sound.resolve (sound : Sound view options cache) (spelled : SpelledAlike view options)
    (request : ImportRequest) :
    Sound view options (cache.resolve view options request).value.2 := by
  cases here : cache.get? request with
  | some answer =>
    rw [resolve_of_cached here]
    exact sound
  | none =>
    rw [resolve_of_missing here]
    constructor
    · intro q r cached
      rw [Table.get?_insert] at cached
      split at cached
      · exact Import.found_of_search (Option.some.inj cached)
      · exact sound.found q r cached
    · intro q answer cached
      rw [Table.get?_insert] at cached
      split at cached
      · rename_i same
        obtain ⟨specifier, importer⟩ := rank_request_iff.mp same
        cases cached
        rw [← specifier]
        exact spelled request.specifier _ _ importer
      · exact sound.isSome_eq q answer cached

end ImportCache

namespace Host

variable {host : Host} {tree : FileTree} {cache : ImportCache} {found : ResolvedModule}

theorem resolveAll_sound {view : FileTree} {options : Options} (sound : cache.Sound view options)
    (spelled : ImportCache.SpelledAlike view options)
    (dialectOf : Path → σ → Noted (Dialect × σ)) (importer : Path) (specifiers : List String)
    (held : σ) :
    let resolved := (resolveAll view options dialectOf importer specifiers cache held).value
    resolved.2.1.Sound view options ∧ List.Forall₂ (fun specifier entry => entry.isSome =
      (Import.search view options specifier importer).value.isSome) specifiers resolved.1 := by
  induction specifiers generalizing cache held with
  | nil => exact ⟨sound, .nil⟩
  | cons specifier rest ih =>
    have still := sound.resolve spelled ⟨specifier, importer⟩
    have own := still.isSome_eq _ _ (ImportCache.resolve_caches ⟨specifier, importer⟩)
    rw [resolveAll_cons]
    obtain ⟨kept, others⟩ := ih still _
    refine ⟨kept, .cons ?_ others⟩
    rw [← own]
    cases (cache.resolve view options ⟨specifier, importer⟩).value.1 <;> rfl

/-- Each module of a batch was handed out for a file that was found, and what was tracked then
stays tracked. -/
theorem exists_handOut {options : Options} (sound : cache.Sound (host.view tree) options)
    (spelled : ImportCache.SpelledAlike (host.view tree) options) {importer : Path}
    {specifiers : List String} {tracked : Snapshots}
    (given : some found ∈ (resolveAll (host.view tree) options (host.dialect tree) importer
      specifiers cache tracked).value.1) :
    ∃ (r : Resolution) (point : Snapshots), Import.Found (host.view tree) r.path ∧
      found = (r.handOut (host.dialect tree) point).value.1 ∧
      ∀ p s, (r.handOut (host.dialect tree) point).value.2.get? p = some s →
        (resolveAll (host.view tree) options (host.dialect tree) importer specifiers cache
          tracked).value.2.2.get? p = some s := by
  induction specifiers generalizing cache tracked with
  | nil => cases given
  | cons specifier rest ih =>
    have still := sound.resolve spelled ⟨specifier, importer⟩
    rw [resolveAll_cons] at given ⊢
    rcases List.mem_cons.mp given with here | later
    · cases answer : (cache.resolve (host.view tree) options ⟨specifier, importer⟩).value.1 with
      | none =>
        rw [answer] at here
        cases here
      | some r =>
        -- what is tracked once the head is handed out stays tracked through the rest of the batch
        have cached := (ImportCache.resolve_caches ⟨specifier, importer⟩).trans
          (congrArg some answer)
        rw [answer] at here
        simp only [answer]
        exact ⟨r, tracked, still.found _ r cached, Option.some.inj here,
          (resolveAll_loads options importer rest _ _).kept⟩
    · exact ih still later

/-- What the host remembers of imports is sound for the files and the options it has. -/
def Trusts (host : Host) (tree : FileTree) (held : Held) : Prop :=
  held.imports.Sound (host.view tree) host.configuration.options

variable {held : Held}

theorem spelledAlike (componentwise : tree.Componentwise) :
    ImportCache.SpelledAlike (host.view tree) host.configuration.options :=
  fun specifier _ _ same => rel_isSome (Import.search_alike componentwise _ specifier same)

theorem ask_trusts (trusts : host.Trusts tree held) (componentwise : tree.Componentwise)
    (query : Query) : host.Trusts tree (host.ask tree held query).value.2 := by
  cases query with
  | resolve specifiers importer =>
    exact (resolveAll_sound trusts (spelledAlike componentwise) _ importer specifiers _).1
  | _ => exact trusts

theorem askAll_trusts (trusts : host.Trusts tree held) (componentwise : tree.Componentwise)
    (queries : List Query) : host.Trusts tree (host.askAll tree held queries).value.2 :=
  askAll_invariant (P := host.Trusts tree)
    (fun _ query trusts => ask_trusts trusts componentwise query) trusts queries

/-- Whoever asks for the dialect of a file that can be read is told that of its snapshot. -/
theorem dialect_eq_of_tracked {path : Path} {tracked : Snapshots} {u : Snapshot}
    (held : tracked.get? path.real = some u) :
    (host.dialect tree path tracked).value.1 = u.dialect := by
  simp only [dialect, Noted.value_bind, Noted.value_pure, snapshot?_value, held]
  rfl

theorem exists_tracked_of_readable {path : Path}
    (readable : ((host.view tree).contents? path.real).value.isSome = true) (tracked : Snapshots) :
    ∃ u, (host.dialect tree path tracked).value.2.get? path.real = some u ∧
      (host.dialect tree path tracked).value.1 = u.dialect := by
  obtain ⟨text, contents⟩ := Option.isSome_iff_exists.mp readable
  have loads : ∃ u, host.fromTree? tree path.real = some u := by
    refine ⟨(Snapshot.ofDocument host.preprocess (host.newDocument path.real text) .disk).value, ?_⟩
    simp only [fromTree?, Snapshot.load?, Noted.value_bind, contents]
    rfl
  obtain ⟨u, loaded⟩ := loads
  have served : ∃ u, (host.snapshot? tree path tracked).value.1 = some u := by
    rw [snapshot?_value, loaded]
    cases tracked.get? path.real with
    | none => exact ⟨u, rfl⟩
    | some s => exact ⟨s, rfl⟩
  obtain ⟨u, served⟩ := served
  refine ⟨u, (snapshot?_tracked path).symm.trans served, ?_⟩
  simp only [dialect, Noted.value_bind, Noted.value_pure, served]
  rfl

end Host

/-- A move whose files, if it meets any, are those of one tree. -/
def Move.Meets (tree : FileTree) : Move → Prop
  | .update met _ _ _ => met = tree
  | .ask met _ => met = tree
  | .delete _ | .elsewhere => True

/-- A course all of whose operations meet one tree. -/
inductive SteadyCourse (host : Host) (tree : FileTree) : List Moment → Prop where
  | opened (key : ProjectKey) (factory : EngineFactory) (session : Session) (start : EngineStart)
      (up : (Session.new key host factory tree).value = (.ok session, start)) :
    SteadyCourse host tree [⟨session, factory.afterStart.built, .opened factory.queries start⟩]
  | moved {m : Moment} {before : List Moment} (course : SteadyCourse host tree (m :: before))
      (move : Move) (meets : move.Meets tree) : SteadyCourse host tree (m.next move :: m :: before)

/-- What may be asked at a moment: its session, or one whose next engine is at some point of its
questions. The first engine is at no other point than the first moment of a course in which it asks
nothing more. -/
inductive Moment.Answers (tree : FileTree) (m : Moment) : Session → Prop where
  | between : m.Answers tree m.session
  | starting (d : Document) (factory : EngineFactory) :
    m.Answers tree { m.session with held := (m.session.trial factory tree d).2 }

namespace SteadyCourse

variable {host : Host} {tree : FileTree} {m : Moment} {before all : List Moment}

theorem course (steady : SteadyCourse host tree all) : Course host all := by
  induction steady with
  | opened key factory session start up => exact .opened key factory tree session start up
  | moved _ move _ ih => exact .moved ih move

/-- A session whose host is given and whose memory of imports is sound. -/
structure Trusted (host : Host) (tree : FileTree) (s : Session) : Prop where
  host_eq : s.host = host
  trusts : host.Trusts tree s.held

theorem Trusted.trial {s : Session} (trusted : Trusted host tree s)
    (componentwise : tree.Componentwise) (factory : EngineFactory) (d : Document) :
    host.Trusts tree (s.trial factory tree d).2 := by
  obtain ⟨rfl, trusts⟩ := trusted
  -- a document that is published is not yet an answer to any import
  have published : s.host.Trusts tree (s.published d) := trusts
  exact Host.askAll_trusts published componentwise factory.queries

theorem Trusted.next (trusted : Trusted host tree m.session) (componentwise : tree.Componentwise)
    {move : Move} (meets : move.Meets tree) : Trusted host tree (m.next move).session := by
  cases move with
  | update met queries failure? d =>
    cases meets
    have trial := trusted.trial componentwise ⟨queries, failure?, m.built⟩ d
    have case := Session.update_updates m.session ⟨queries, failure?, m.built⟩ tree d
    simp only [Moment.next]
    generalize (m.session.update ⟨queries, failure?, m.built⟩ tree d).value = result at case ⊢
    cases case with
    | passedOver again => exact trusted
    | accepted fresh fits => exact ⟨trusted.host_eq, trusted.trusts⟩
    | restarted fresh clash up => exact ⟨trusted.host_eq, trial⟩
    | takenBack fresh clash cause down => exact ⟨trusted.host_eq, trial⟩
  | delete path => exact ⟨trusted.host_eq, trusted.trusts.purge path⟩
  | ask met query =>
    cases meets
    obtain ⟨rfl, trusts⟩ := trusted
    exact ⟨rfl, Host.ask_trusts trusts componentwise query⟩
  | elsewhere => exact trusted

theorem trusted (steady : SteadyCourse host tree (m :: before))
    (componentwise : tree.Componentwise) : Trusted host tree m.session := by
  generalize whole : m :: before = all at steady
  induction steady generalizing m before with
  | opened key factory session start up =>
    cases whole
    obtain ⟨-, -, rfl⟩ := Session.opened_eq up
    have nothing : host.Trusts tree .nothing := ImportCache.sound_empty
    exact ⟨rfl, Host.askAll_trusts nothing componentwise factory.queries⟩
  | moved _ move meets ih =>
    cases whole
    exact (ih rfl).next componentwise meets

theorem Trusted.of_answers (steady : SteadyCourse host tree (m :: before))
    (componentwise : tree.Componentwise) {s : Session} (answers : m.Answers tree s) :
    Trusted host tree s := by
  have trusted := steady.trusted componentwise
  cases answers with
  | between => exact trusted
  | starting d factory => exact ⟨trusted.host_eq, trusted.trial componentwise factory d⟩

end SteadyCourse

namespace Host

variable {host : Host} {files : Table Path String} {r : Resolution} {point later : Snapshots}

/-- A component is handed out under the dialect that is told of it from then on. -/
theorem handOut_current (converted : r.path.isConverted = true)
    (there : files.contains r.path.real = true)
    (kept : ∀ p s, (r.handOut (host.dialect (MemoryFiles.treeOf files)) point).value.2.get? p =
      some s → later.get? p = some s) :
    (r.handOut (host.dialect (MemoryFiles.treeOf files)) point).value.1.extension =
      (host.dialect (MemoryFiles.treeOf files) r.path.real later).value.1.componentExtension := by
  have plain := r.path.isConverted_real
  have readable : ((host.view (MemoryFiles.treeOf files)).contents? r.path.real.real).value.isSome =
      true := by
    simp only [view, FileTree.templated, Path.real_real, plain]
    exact there
  obtain ⟨u, tracked, told⟩ := exists_tracked_of_readable readable point
  rw [handOut_of_converted converted] at kept ⊢
  rw [told, dialect_eq_of_tracked (kept _ u tracked)]

end Host

/-- The modules that an engine is answered with over unchanged files, while it starts or later, are
those of the specifiers for which a search finds something. They are files of the tree that scripts
may be or component files, and a component comes with the extension of the dialect it is in at that
moment. -/
theorem SteadyCourse.modules_current (files : Table Path String) {host : Host} {m : Moment}
    {before : List Moment} (steady : SteadyCourse host (MemoryFiles.treeOf files) (m :: before))
    {s : Session} (answers : m.Answers (MemoryFiles.treeOf files) s) (specifiers : List String)
    (importer : Path) :
    let tree := MemoryFiles.treeOf files
    let asked := (s.ask tree (.resolve specifiers importer)).value
    ∃ entries, asked.1 = .modules entries ∧
      List.Forall₂ (fun specifier entry => entry.isSome = (Import.search (host.view tree)
        host.configuration.options specifier importer).value.isSome) specifiers entries ∧
      ∀ found, some found ∈ entries →
        found.file.isConverted = false ∧ files.contains found.file = true ∧
        (found.file.endsWith ".widget" = true ∨
          ∃ ending ∈ Import.knownEndings, found.file.endsWith ending = true) ∧
        (found.file.endsWith ".widget" = true → ∃ dialect,
          (asked.2.ask tree (.dialect found.file)).value.1 = .dialect dialect ∧
            dialect.ComesWith found.extension) := by
  intro tree asked
  have componentwise := MemoryFiles.componentwise files
  obtain ⟨rfl, trusts⟩ := SteadyCourse.Trusted.of_answers steady componentwise answers
  have spelled : ImportCache.SpelledAlike (s.host.view tree) s.host.configuration.options :=
    Host.spelledAlike componentwise
  obtain ⟨-, complete⟩ := Host.resolveAll_sound trusts spelled (s.host.dialect tree) importer
    specifiers s.held.tracked
  refine ⟨_, rfl, complete, ?_⟩
  intro found given
  obtain ⟨r, point, there, rfl, kept⟩ := Host.exists_handOut trusts spelled given
  have isFile : files.contains r.path.real = true := there.isFile
  cases converted : r.path.isConverted with
  | true =>
    have file : (r.handOut (s.host.dialect tree) point).value.1.file = r.path.real := by
      rw [Host.handOut_of_converted converted]
    have current := Host.handOut_current converted isFile kept
    rw [file, current]
    exact ⟨r.path.isConverted_real, isFile, .inl (Path.endsWith_real converted),
      fun _ => ⟨_, rfl, Dialect.comesWith_componentExtension _⟩⟩
  | false =>
    have file : (r.handOut (s.host.dialect tree) point).value.1.file = r.path := by
      rw [Host.handOut_of_plain converted]
      rfl
    rw [Path.real_eq_self converted] at isFile
    obtain ⟨base, candidate⟩ := there.candidate
    obtain ⟨ending, known, ends⟩ := Import.exists_ending_of_candidate candidate
    have script := Import.not_component_of_known known ends
    rw [file]
    refine ⟨converted, isFile, .inr ⟨ending, known, ends⟩, fun component => ?_⟩
    rw [script] at component
    cases component

/-! Both components are imported, and then the editor gives one of them another dialect. -/
namespace Sample

def main : Path := .ofString "/p/main.ts"
def components : List String := ["./App.widget", "./Menu.widget"]

def imported : Moment := opened.next (.ask (disk "js") (.resolve components main))
def rewritten : Moment := imported.next (.update (disk "js") [] none ⟨menu, 1, "ts"⟩)

theorem steady_rewritten : SteadyCourse host (disk "js") [rewritten, imported, opened] :=
  .moved (.moved (.opened .global ⟨[], none, 0⟩ _ _ rfl)
    (.ask (disk "js") (.resolve components main)) rfl)
      (.update (disk "js") [] none ⟨menu, 1, "ts"⟩) rfl

end Sample

/-- What is remembered of the imports is answered in the dialects that hold now. -/
theorem SteadyCourse.modules_current_rewritten :
    let asked := (Sample.rewritten.session.ask (Sample.disk "js")
      (.resolve Sample.components Sample.main)).value
    let told := fun path => (asked.2.ask (Sample.disk "js") (.dialect path)).value.1
    SteadyCourse Sample.host (Sample.disk "js")
      [Sample.rewritten, Sample.imported, Sample.opened] ∧
    asked.1 = .modules [some ⟨Sample.app, ".jsx", false⟩, some ⟨Sample.menu, ".tsx", false⟩] ∧
    (∃ dialect, told Sample.app = .dialect dialect ∧ dialect.ComesWith ".jsx") ∧
    ∃ dialect, told Sample.menu = .dialect dialect ∧ dialect.ComesWith ".tsx" := by
  intro asked told
  have answer : asked.1 =
      .modules [some ⟨Sample.app, ".jsx", false⟩, some ⟨Sample.menu, ".tsx", false⟩] := rfl
  obtain ⟨entries, same, -, sound⟩ := modules_current _ Sample.steady_rewritten .between
    Sample.components Sample.main
  cases same.symm.trans answer
  obtain ⟨-, -, -, plain⟩ := sound _ List.mem_cons_self
  obtain ⟨-, -, -, typed⟩ := sound _ (.tail _ List.mem_cons_self)
  exact ⟨Sample.steady_rewritten, answer, plain (by decide), typed (by decide)⟩

end ComponentProjects
