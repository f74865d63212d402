import ComponentProjects.Proofs.Session.Steady

/-! Components that an editor has open and that were never saved. The host takes a converted path
for a file while its component is tracked, but an import is looked for among the saved files alone.
So the two agree just while every tracked component is saved, and that a component was not found
is remembered. -/
namespace ComponentProjects

namespace Import

variable {tree : FileTree} {base importer : Path} {specifier : String}

/-- A component file carries no ending of a script, so every script's ending is set behind it. -/
theorem candidates_of_component (component : base.endsWith ".widget" = true) :
    candidates base = impliedEndings.map base.withEnding := by
  have script : ∀ ending ∈ knownEndings, base.endsWith ending = false := by
    intro ending known
    refine Bool.eq_false_iff.mpr fun ends => ?_
    have other := not_component_of_known known ends
    rw [component] at other
    cases other
  have outputs : ∀ pair ∈ sourceEndings, pair.1 ∈ knownEndings := by decide
  have none : sources base = [] := by
    refine List.filterMap_eq_nil_iff.mpr fun pair member => ?_
    have ends := script _ (outputs pair member)
    rw [Path.endsWith_eq] at ends
    simpa using ends
  have carried : knownEndings.any base.endsWith = false := by
    simpa using script
  simp [candidates, none, carried]

theorem search_of_twin (relative : isRelative specifier = true) {component : Path}
    (target : ((directoryOf importer).join (.ofString specifier)).normal = component)
    (converted : (component.withEnding ".ts").isConverted = true)
    (there : (tree.isFile (component.withEnding ".ts")).value = true) (options : Options) :
    (search tree options specifier importer).value =
      some ⟨component.withEnding ".ts", false⟩ := by
  have ends : component.endsWith ".widget" = true := by
    have real := Path.endsWith_real converted
    rwa [Path.real_withEnding converted] at real
  have first : (asFile tree component).value = some (component.withEnding ".ts") := by
    rw [value_asFile, candidates_of_component ends]
    exact List.find?_cons_of_pos there
  rw [value_search, if_pos (.inl relative), target, value_asFileOrDirectory, first]
  rfl

end Import

namespace Session

variable {s : Session} {tree : FileTree} {specifier : String} {importer file : Path}

/-- A specifier is answered with a file, however that is spelled. -/
def Resolves (s : Session) (tree : FileTree) (specifier : String) (importer file : Path) : Prop :=
  ∃ found, (s.ask tree (.resolve [specifier] importer)).value.1 = .modules [some found] ∧
    found.file.Same file

theorem ask_isFile_twin (s : Session) (tree : FileTree) {component : Path}
    (converted : (component.withEnding ".ts").isConverted = true) :
    (s.ask tree (.isFile (component.withEnding ".ts"))).value.1 =
      .flag (s.held.tracked.contains component || (tree.isFile component).value) := by
  simp only [ask, Host.ask, Host.isFile, Host.view, FileTree.templated, converted,
    Path.real_withEnding converted, Noted.value_bind, Noted.value_pure, Bool.true_and]
  split <;> simp_all

theorem ask_resolve_of_missing (missing : s.held.imports.get? ⟨specifier, importer⟩ = none)
    (tree : FileTree) :
    (s.ask tree (.resolve [specifier] importer)).value.1 = .modules
      [(Import.search (s.host.view tree) s.host.configuration.options specifier importer).value.map
        fun r => (r.handOut (s.host.dialect tree) s.held.tracked).value.1] := by
  simp only [ask, Host.ask, Host.resolve, Noted.value_bind, Noted.value_pure, Host.resolveAll_cons,
    ImportCache.resolve_of_missing missing]
  cases (Import.search (s.host.view tree) s.host.configuration.options specifier importer).value <;>
    rfl

theorem ask_resolve_of_none (remembered : s.held.imports.get? ⟨specifier, importer⟩ = some none)
    (tree : FileTree) :
    (s.ask tree (.resolve [specifier] importer)).value.1 = .modules [none] := by
  simp only [ask, Host.ask, Host.resolve, Noted.value_bind, Noted.value_pure, Host.resolveAll_cons,
    ImportCache.resolve_of_cached remembered]
  rfl

theorem imports_of_ask_resolve (s : Session) (tree : FileTree) (specifier : String)
    (importer : Path) : (s.ask tree (.resolve [specifier] importer)).value.2.held.imports =
      (s.held.imports.resolve (s.host.view tree) s.host.configuration.options
        ⟨specifier, importer⟩).value.2 := by
  simp only [ask, Host.ask, Host.resolve, Noted.value_bind, Noted.value_pure, Host.resolveAll_cons]
  rfl

/-- Only a saved file is ever answered anew. -/
theorem saved_of_resolves {files : Table Path String}
    (missing : s.held.imports.get? ⟨specifier, importer⟩ = none)
    (resolves : s.Resolves (MemoryFiles.treeOf files) specifier importer file) :
    files.contains file = true := by
  obtain ⟨found, answer, same⟩ := resolves
  rw [ask_resolve_of_missing missing] at answer
  obtain ⟨r, searched, rfl⟩ : ∃ r, (Import.search (s.host.view (MemoryFiles.treeOf files))
      s.host.configuration.options specifier importer).value = some r ∧
        (r.handOut (s.host.dialect (MemoryFiles.treeOf files)) s.held.tracked).value.1 = found := by
    simpa using answer
  have there : files.contains r.path.real = true := (Import.found_of_search searched).isFile
  rw [Host.file_handOut] at same
  rw [← there]
  exact congrArg Option.isSome (files.get?_congr same.symm.rank_eq)

end Session

/-- A converted path is told to be a file while its component is tracked or saved, but an import
that names the component is answered with it only while it is saved. So imports agree with what is
told just when the component is not the editor's alone, and that one failed is remembered. -/
theorem Session.imports_agree_iff_saved (s : Session) (files : Table Path String)
    (specifier : String) (importer component : Path) (relative : Import.isRelative specifier = true)
    (target : ((Import.directoryOf importer).join (.ofString specifier)).normal = component)
    (converted : (component.withEnding ".ts").isConverted = true)
    (missing : s.held.imports.get? ⟨specifier, importer⟩ = none) :
    let tree := MemoryFiles.treeOf files
    let asked := (s.ask tree (.resolve [specifier] importer)).value
    let told := (s.ask tree (.isFile (component.withEnding ".ts"))).value.1
    ((told = .flag true → s.Resolves tree specifier importer component) ↔
      (s.held.tracked.contains component = true → files.contains component = true)) ∧
    told = .flag (s.held.tracked.contains component || files.contains component) ∧
    (s.Resolves tree specifier importer component ↔ files.contains component = true) ∧
    (files.contains component = true → ∃ dialect extension,
      (s.ask tree (.dialect component)).value.1 = .dialect dialect ∧
        dialect.ComesWith extension ∧
          asked.1 = .modules [some ⟨component, extension, false⟩]) ∧
    (asked.1 = .modules [none] → ∀ later,
      (asked.2.ask later (.resolve [specifier] importer)).value.1 = .modules [none]) := by
  intro tree asked told
  have answer := ask_resolve_of_missing missing tree
  have saved : files.contains component = true → ∃ dialect extension,
      (s.ask tree (.dialect component)).value.1 = .dialect dialect ∧
        dialect.ComesWith extension ∧
          asked.1 = .modules [some ⟨component, extension, false⟩] := by
    intro there
    have isFile : ((s.host.view tree).isFile (component.withEnding ".ts")).value = true := by
      simp only [Host.view, FileTree.templated, Path.real_withEnding converted]
      exact there
    refine ⟨(s.host.dialect tree component s.held.tracked).value.1, _, rfl,
      Dialect.comesWith_componentExtension _, ?_⟩
    rw [Import.search_of_twin relative target converted isFile, Option.map_some,
      Host.handOut_of_converted (r := ⟨component.withEnding ".ts", false⟩) converted] at answer
    simpa only [Path.real_withEnding converted] using answer
  have resolves_iff : s.Resolves tree specifier importer component ↔
      files.contains component = true := by
    refine ⟨saved_of_resolves missing, fun there => ?_⟩
    obtain ⟨dialect, extension, -, -, given⟩ := saved there
    exact ⟨_, given, .refl component⟩
  have told_eq : told = .flag (s.held.tracked.contains component || files.contains component) :=
    s.ask_isFile_twin tree converted
  refine ⟨?_, told_eq, resolves_iff, saved, ?_⟩
  · rw [told_eq, resolves_iff, Answer.flag.injEq, Bool.or_eq_true]
    exact ⟨fun agree tracked => agree (.inl tracked), fun agree told => told.elim agree id⟩
  · intro failed later
    -- the search came to nothing, and that is what the cache keeps
    have nothing : (Import.search (s.host.view tree) s.host.configuration.options specifier
        importer).value = none := by
      simpa using answer.symm.trans failed
    apply ask_resolve_of_none
    rw [imports_of_ask_resolve, ImportCache.resolve_caches, ImportCache.resolve_of_missing missing]
    exact congrArg some nothing

namespace Sample

def draft : Path := .ofString "/p/Draft.widget"
def drafted : Moment := opened.next (.update (disk "js") [] none ⟨draft, 1, "js"⟩)

end Sample

/-- The editor opens a component that is not saved yet, and a script imports it. -/
theorem Session.not_imported_drafted :
    let files := MemoryFiles.ofList [(Sample.app, "js"), (Sample.menu, "js")] |>.files
    let drafted := Sample.drafted.session
    Course Sample.host [Sample.drafted, Sample.opened] ∧
    (drafted.ask (MemoryFiles.treeOf files) (.isFile (Sample.draft.withEnding ".ts"))).value.1 =
      .flag true ∧
    ¬ drafted.Resolves (MemoryFiles.treeOf files) "./Draft.widget" (.ofString "/p/main.ts")
      Sample.draft := by
  intro files drafted
  obtain ⟨-, told, resolves_iff, -⟩ := imports_agree_iff_saved drafted files "./Draft.widget"
    (.ofString "/p/main.ts") Sample.draft rfl (by decide) (by decide) rfl
  refine ⟨.moved (.opened .global ⟨[], none, 0⟩ (Sample.disk "js") _ _ rfl) _, told, ?_⟩
  rw [resolves_iff]
  decide

end ComponentProjects
