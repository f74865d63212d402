import ComponentProjects.Proofs.Path.Converted
import ComponentProjects.Session.Host

/-! What questions do to the snapshots a host tracks. They lose none and change none, and one
that is new was read from the tree: for a path that a question asks about, or for a component
that its answer tells of. -/
namespace ComponentProjects

/-- The files whose snapshots a question asks for, under their own or under a converted path. -/
def Query.asked : Query → List Path
  | .version path | .snapshot path | .dialect path => [path.real]
  | .contents path => if path.isConverted then [path.real] else []
  | _ => []

/-- The components among the modules that an answer tells of. -/
def Answer.told : Answer → List Path
  | .modules entries =>
    (entries.filterMap fun entry? => entry?.map (·.file)).filter (·.endsWith ".widget")
  | _ => []

namespace Snapshot

variable (preprocess : Preprocessor) (d : Document) (origin : Origin)

theorem path_ofDocument : (ofDocument preprocess d origin).value.path = d.path := by
  unfold ofDocument
  split <;> rfl

theorem version_ofDocument : (ofDocument preprocess d origin).value.version = d.version := by
  unfold ofDocument
  split <;> rfl

theorem origin_ofDocument : (ofDocument preprocess d origin).value.origin = origin := by
  unfold ofDocument
  split <;> rfl

theorem dialect_ofDocument_of_plain (plain : d.path.isTemplated = false) :
    (ofDocument preprocess d origin).value.dialect = .ofPath d.path := by
  rw [ofDocument, plain]
  rfl

end Snapshot

namespace Snapshots

theorem get?_publish (tracked : Snapshots) (s : Snapshot) (p : Path) :
    (tracked.publish s).get? p = if s.path.Same p then some s else tracked.get? p := by
  simp only [publish, Table.get?_insert, Path.rank_eq_iff_same]

/-- A snapshot that is loaded is filed under the path that was asked for. -/
theorem tracked_getOrLoad (tracked : Snapshots) (path : Path) (load : Noted (Option Snapshot)) :
    (tracked.getOrLoad path load).value.2 =
      match tracked.get? path, load.value with
      | none, some s => tracked.insert path s
      | _, _ => tracked := by
  unfold getOrLoad
  cases tracked.get? path with
  | some s => rfl
  | none =>
    simp only [Noted.value_bind]
    cases load.value <;> rfl

end Snapshots

namespace Host

variable {host : Host} {tree : FileTree} {tracked before after later : Snapshots}

/-- The snapshot that a file of the tree is read as. -/
def fromTree? (host : Host) (tree : FileTree) (path : Path) : Option Snapshot :=
  (Snapshot.load? (host.view tree) host.preprocess host.newDocument path).value

theorem exists_of_fromTree? {path : Path} {u : Snapshot}
    (found : host.fromTree? tree path = some u) : ∃ content,
      u = (Snapshot.ofDocument host.preprocess (host.newDocument path content) .disk).value := by
  simp only [fromTree?, Snapshot.load?, Noted.value_bind] at found
  split at found
  · cases found
  · rename_i content _
    exact ⟨content, (Option.some.inj found).symm⟩

theorem origin_of_fromTree? {path : Path} {u : Snapshot}
    (found : host.fromTree? tree path = some u) : u.origin = .disk := by
  obtain ⟨content, rfl⟩ := exists_of_fromTree? found
  exact Snapshot.origin_ofDocument ..

/-- Only a file that has a text is read, as it is but for its conversion. -/
theorem isSome_fromTree? {path : Path} (plain : path.isConverted = false) :
    (host.fromTree? tree path).isSome = (tree.contents? path).value.isSome := by
  have read : ((host.view tree).contents? path).value = (tree.contents? path).value := by
    simp only [view, FileTree.templated, plain]
    rfl
  simp only [fromTree?, Snapshot.load?, Noted.value_bind, read]
  cases (tree.contents? path).value <;> rfl

/-- The later snapshots are the earlier ones and some that were read for the wanted files. -/
structure Loads (host : Host) (tree : FileTree) (wanted : List Path)
    (before after : Snapshots) : Prop where
  kept : ∀ p s, before.get? p = some s → after.get? p = some s
  read : ∀ p s, before.get? p = none → after.get? p = some s →
    ∃ q ∈ wanted, q.Same p ∧ host.fromTree? tree q = some s

theorem Loads.refl (wanted : List Path) : host.Loads tree wanted tracked tracked where
  kept _ _ held := held
  read _ _ missing held := by rw [missing] at held; cases held

theorem Loads.mono {wanted more : List Path} (loads : host.Loads tree wanted before after)
    (subset : wanted ⊆ more) : host.Loads tree more before after where
  kept := loads.kept
  read p s missing held := by
    obtain ⟨q, among, same, read⟩ := loads.read p s missing held
    exact ⟨q, subset among, same, read⟩

theorem Loads.trans {first second : List Path} (h : host.Loads tree first before after)
    (g : host.Loads tree second after later) : host.Loads tree (first ++ second) before later where
  kept p s held := g.kept p s (h.kept p s held)
  read p s missing held := by
    cases between : after.get? p with
    | none =>
      obtain ⟨q, among, same, read⟩ := g.read p s between held
      exact ⟨q, List.mem_append_right _ among, same, read⟩
    | some t =>
      have unchanged : t = s := Option.some.inj ((g.kept p t between).symm.trans held)
      obtain ⟨q, among, same, read⟩ := h.read p t missing between
      exact ⟨q, List.mem_append_left _ among, same, unchanged ▸ read⟩

theorem Loads.held_or_read {wanted : List Path} {p : Path} {u : Snapshot}
    (loads : host.Loads tree wanted before after) (held : after.get? p = some u) :
    before.get? p = some u ∨
      before.get? p = none ∧ ∃ q, q.Same p ∧ host.fromTree? tree q = some u := by
  cases start : before.get? p with
  | none =>
    obtain ⟨q, -, same, read⟩ := loads.read p u start held
    exact .inr ⟨rfl, q, same, read⟩
  | some v => exact .inl ((loads.kept p v start).symm.trans held)

theorem snapshot?_value (path : Path) : (host.snapshot? tree path tracked).value =
    match tracked.get? path.real, host.fromTree? tree path.real with
    | some s, _ => (some s, tracked)
    | none, none => (none, tracked)
    | none, some s => (some s, tracked.insert path.real s) := by
  unfold snapshot? Snapshots.getOrLoad fromTree?
  split
  · rename_i found
    simp [found]
  · rename_i missing
    simp only [Noted.value_bind, missing]
    split <;> simp_all

theorem snapshot?_loads (path : Path) :
    host.Loads tree [path.real] tracked (host.snapshot? tree path tracked).value.2 := by
  rw [snapshot?_value]
  split
  · exact .refl _
  · exact .refl _
  · rename_i s missing read
    constructor
    · intro p t held
      rw [Table.get?_insert]
      split
      · rename_i same
        rw [Table.get?_congr _ same, held] at missing
        cases missing
      · exact held
    · intro p t absent held
      rw [Table.get?_insert] at held
      split at held
      · rename_i same
        cases held
        exact ⟨path.real, List.mem_singleton_self _, Path.rank_eq_iff_same.mp same, read⟩
      · rw [absent] at held
        cases held

theorem snapshot?_tracked (path : Path) : (host.snapshot? tree path tracked).value.1 =
    (host.snapshot? tree path tracked).value.2.get? path.real := by
  rw [snapshot?_value]
  split <;> simp_all [Table.get?_insert]

theorem dialect_loads (path : Path) :
    host.Loads tree [path.real] tracked (host.dialect tree path tracked).value.2 :=
  snapshot?_loads path

theorem resolveAll_cons (options : Options) (dialectOf : Path → σ → Noted (Dialect × σ))
    (importer : Path) (specifier : String) (rest : List String) (cache : ImportCache) (held : σ) :
    (resolveAll tree options dialectOf importer (specifier :: rest) cache held).value =
      let found := (cache.resolve tree options ⟨specifier, importer⟩).value
      let given := match found.1 with
        | none => (none, held)
        | some r => ((r.handOut dialectOf held).value.map some id)
      let others := (resolveAll tree options dialectOf importer rest found.2 given.2).value
      (given.1 :: others.1, others.2) := by
  simp only [resolveAll, Noted.value_bind]
  cases ((cache.resolve tree options ⟨specifier, importer⟩).value.1) <;> rfl

theorem handOut_of_converted {r : Resolution} (converted : r.path.isConverted = true)
    (dialectOf : Path → σ → Noted (Dialect × σ)) (held : σ) :
    (r.handOut dialectOf held).value =
      (⟨r.path.real, (dialectOf r.path.real held).value.1.componentExtension, r.external⟩,
        (dialectOf r.path.real held).value.2) := by
  rw [Resolution.handOut, if_pos converted]
  rfl

theorem handOut_of_plain {r : Resolution} (plain : r.path.isConverted = false)
    (dialectOf : Path → σ → Noted (Dialect × σ)) (held : σ) :
    r.handOut dialectOf held = pure (⟨r.path, scriptExtension r.path, r.external⟩, held) := by
  rw [Resolution.handOut, plain]
  rfl

theorem file_handOut (r : Resolution) (dialectOf : Path → σ → Noted (Dialect × σ)) (held : σ) :
    (r.handOut dialectOf held).value.1.file = r.path.real := by
  cases converted : r.path.isConverted with
  | true => rw [handOut_of_converted converted]
  | false =>
    rw [handOut_of_plain converted, Path.real_eq_self converted]
    rfl

/-- Nothing is read for a module that is no component. -/
theorem handOut_loads (r : Resolution) (tracked : Snapshots) :
    let handed := (r.handOut (host.dialect tree) tracked).value
    host.Loads tree ([handed.1.file].filter (·.endsWith ".widget")) tracked handed.2 := by
  intro handed
  cases converted : r.path.isConverted with
  | true =>
    have component := Path.endsWith_real converted
    have loads : host.Loads tree [r.path.real.real] tracked
        (host.dialect tree r.path.real tracked).value.2 := dialect_loads r.path.real
    rw [Path.real_real] at loads
    simp only [handed, handOut_of_converted converted, List.filter_cons, component, if_true,
      List.filter_nil]
    exact loads
  | false =>
    simp only [handed, handOut_of_plain converted]
    exact .refl _

theorem resolveAll_loads (options : Options) (importer : Path) (specifiers : List String)
    (cache : ImportCache) (tracked : Snapshots) :
    let resolved := (resolveAll (host.view tree) options (host.dialect tree) importer specifiers
      cache tracked).value
    host.Loads tree (Answer.modules resolved.1).told tracked resolved.2.2 := by
  induction specifiers generalizing cache tracked with
  | nil => exact .refl _
  | cons specifier rest ih =>
    rw [resolveAll_cons]
    generalize (cache.resolve (host.view tree) options ⟨specifier, importer⟩).value = found
    obtain ⟨answer, cache⟩ := found
    cases answer with
    | none => exact ih cache tracked
    | some r =>
      have both := (handOut_loads r tracked).trans (ih cache _)
      rw [Answer.told, ← List.filter_append] at both
      exact both

theorem ask_loads (held : Held) (query : Query) :
    let asked := (host.ask tree held query).value
    host.Loads tree (query.asked ++ asked.1.told) held.tracked asked.2.tracked := by
  cases query with
  | version path => exact snapshot?_loads path
  | snapshot path => exact snapshot?_loads path
  | dialect path => exact dialect_loads path
  | resolve specifiers importer =>
    exact resolveAll_loads host.configuration.options importer specifiers held.imports held.tracked
  | contents path =>
    simp only [Query.asked, ask, track, contents?]
    split
    · exact snapshot?_loads path
    · exact .refl _
  | options => exact .refl _
  | fileNames => exact .refl _
  | directory => exact .refl _
  | isFile path => exact .refl _
  | files dir endings => exact .refl _
  | subdirectories dir => exact .refl _
  | isDirectory path => exact .refl _

theorem askAll_cons (held : Held) (query : Query) (rest : List Query) :
    (host.askAll tree held (query :: rest)).value =
      let first := (host.ask tree held query).value
      let others := (host.askAll tree first.2 rest).value
      (first.1 :: others.1, others.2) := rfl

/-- What holds before a row of questions and stays through each of them holds after the row. -/
theorem askAll_invariant {P : Held → Prop}
    (step : ∀ held query, P held → P (host.ask tree held query).value.2) {held : Held}
    (start : P held) (queries : List Query) : P (host.askAll tree held queries).value.2 := by
  induction queries generalizing held with
  | nil => exact start
  | cons query rest ih =>
    rw [askAll_cons]
    exact ih (step held query start)

theorem askAll_loads (held : Held) (queries : List Query) :
    let asked := (host.askAll tree held queries).value
    host.Loads tree (queries.flatMap Query.asked ++ asked.1.flatMap Answer.told) held.tracked
      asked.2.tracked := by
  induction queries generalizing held with
  | nil => exact .refl _
  | cons query rest ih =>
    rw [askAll_cons]
    refine ((ask_loads held query).trans (ih _)).mono fun q wanted => ?_
    simp only [List.flatMap_cons, List.mem_append] at wanted ⊢
    tauto

/-- Each answer of a row of questions was given at some point of it, and the others of the row
follow from there. -/
theorem exists_point_of_mem_zip {queries : List Query} {held : Held} {query : Query}
    {answer : Answer}
    (asked : (query, answer) ∈ queries.zip (host.askAll tree held queries).value.1) :
    ∃ (point : Held) (rest : List Query), answer = (host.ask tree point query).value.1 ∧
      (host.askAll tree held queries).value.2 =
        (host.askAll tree (host.ask tree point query).value.2 rest).value.2 := by
  induction queries generalizing held with
  | nil => cases asked
  | cons first rest ih =>
    rw [askAll_cons] at asked ⊢
    rcases List.mem_cons.mp asked with here | later
    · cases here
      exact ⟨held, rest, rfl, rfl⟩
    · exact ih later

/-- What was tracked when an answer of a row was given stays tracked to its end. -/
theorem mem_zip_askAll {queries : List Query} {held : Held} {query : Query} {answer : Answer}
    (asked : (query, answer) ∈ queries.zip (host.askAll tree held queries).value.1) :
    ∃ point : Held, answer = (host.ask tree point query).value.1 ∧
      ∀ p s, (host.ask tree point query).value.2.tracked.get? p = some s →
        (host.askAll tree held queries).value.2.tracked.get? p = some s := by
  obtain ⟨point, rest, given, last⟩ := exists_point_of_mem_zip asked
  rw [last]
  exact ⟨point, given, (askAll_loads _ rest).kept⟩

theorem ask_snapshot_value (held : Held) (path : Path) :
    (host.ask tree held (.snapshot path)).value.1 =
      .snapshot ((host.ask tree held (.snapshot path)).value.2.tracked.get? path.real) :=
  congrArg Answer.snapshot (snapshot?_tracked path)

theorem ask_version_value (held : Held) (path : Path) :
    (host.ask tree held (.version path)).value.1 =
      .text (((host.ask tree held (.version path)).value.2.tracked.get? path.real).elim ""
        Snapshot.versionText) :=
  congrArg (fun s? : Option Snapshot => Answer.text (s?.elim "" Snapshot.versionText))
    (snapshot?_tracked path)

end Host

end ComponentProjects
