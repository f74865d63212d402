import ComponentProjects.Inspection
import ComponentProjects.Proofs.Path.Normal
import ComponentProjects.Proofs.Registry.Spelling

/-! What the spelling of the workspace root does to a report. The files of a report are normalised,
the root that bounds the search for their projects is not. So a root that normalising would change
encloses no directory of theirs, and each file goes to the global project. -/
namespace ComponentProjects

variable {tree : FileTree} {loader : Loader} {root other path : Path}

namespace Loader

theorem mem_ancestors_of_start? {start : Path} (found : start? tree path = some start) :
    start ∈ path.ancestors := by
  unfold start? at found
  split at found
  · cases found
    exact List.mem_cons_self
  · have first : path.parents.head? = some start := List.head?_map.trans found
    exact .tail _ (List.mem_of_head? first)

theorem governing?_same_root (same : root.Same other) :
    (loader.governing? tree path root).value = (loader.governing? tree path other).value := by
  have within (dir : Path) : dir.startsWith root = dir.startsWith other := by
    unfold Path.startsWith
    rw [same]
  simp only [value_governing?, within]

/-- A project file governs no path that lies outside of the root. -/
theorem startsWith_of_governing? {file : Path}
    (found : (loader.governing? tree path root).value = some file) :
    path.startsWith root = true := by
  rw [value_governing?] at found
  cases begun : start? tree path with
  | none =>
    rw [begun] at found
    cases found
  | some start =>
    have above := Path.startsWith_of_mem_ancestors (mem_ancestors_of_start? begun)
    cases within : start.startsWith root with
    | false => simp [begun, Path.ancestors, within] at found
    | true => exact Path.startsWith_trans above within

/-- A root that is not spelled like a normal path governs none. -/
theorem governing?_of_apart (apart : ¬ root.Same root.normal) (path : Path) :
    (loader.governing? tree path.normal root).value = none := by
  cases found : (loader.governing? tree path.normal root).value with
  | none => rfl
  | some file =>
    exact absurd (Path.same_normal_of_startsWith (startsWith_of_governing? found)) apart

end Loader

namespace Inspection

/-- The project that a file is reported under. -/
def projectOf (loader : Loader) (tree : FileTree) (root path : Path) : String :=
  (ProjectKey.ofGoverning (loader.governing? tree (root.join path).normal root).value).display

theorem reports_of_inspectFrom (loader : Loader) (tree : FileTree) (root : Path)
    (paths : List Path) (loaded : Loaded) :
    (inspectFrom loader tree root paths loaded).value.map (fun report =>
      (report.file, report.project)) =
        paths.map fun path => ((root.join path).normal, projectOf loader tree root path) := by
  induction paths generalizing loaded with
  | nil => rfl
  | cons path rest ih =>
    simp only [inspectFrom, Noted.value_bind, Noted.value_pure, List.map_cons, ih]
    rfl

theorem files_inspect (loader : Loader) (tree : FileTree) (root : Path) (paths : List Path) :
    (inspect loader tree root paths).value.map FileReport.file =
      paths.map fun path => (root.join path).normal := by
  have reports := congrArg (List.map Prod.fst) (reports_of_inspectFrom loader tree root paths ∅)
  rw [List.map_map, List.map_map] at reports
  exact reports

theorem projects_inspect (loader : Loader) (tree : FileTree) (root : Path) (paths : List Path) :
    (inspect loader tree root paths).value.map FileReport.project =
      paths.map (projectOf loader tree root) := by
  have reports := congrArg (List.map Prod.snd) (reports_of_inspectFrom loader tree root paths ∅)
  rw [List.map_map, List.map_map] at reports
  exact reports

theorem all_global_iff (loader : Loader) (tree : FileTree) (root : Path) (paths : List Path) :
    (∀ report ∈ (inspect loader tree root paths).value, report.project = "<global>") ↔
      ∀ path ∈ paths, projectOf loader tree root path = "<global>" := by
  rw [← List.forall_mem_map (f := FileReport.project) (P := (· = "<global>")), projects_inspect,
    List.forall_mem_map]

theorem projectOf_same (same : root.Same other) (path : Path) :
    projectOf loader tree root path = projectOf loader tree other path := by
  rw [projectOf, projectOf, (same.join path).normal_eq, Loader.governing?_same_root same]

theorem projectOf_of_apart (apart : ¬ root.Same root.normal) (path : Path) :
    projectOf loader tree root path = "<global>" := by
  rw [projectOf, Loader.governing?_of_apart apart]
  rfl

theorem startsWith_of_project
    (governed : projectOf loader tree root path ≠ "<global>") :
    (root.join path).normal.startsWith root = true := by
  cases found : (loader.governing? tree (root.join path).normal root).value with
  | none =>
    refine absurd ?_ governed
    rw [projectOf, found]
    rfl
  | some file => exact Loader.startsWith_of_governing? found

/-- A report names the same files under a root and under the root normalised. It names the same
projects just when normalising does not change what the root names, or when there is no project but
the global one to name. Under a root that normalising would change it names no other, and under any
root only files within it have another. -/
theorem inspect_rooted (loader : Loader) (tree : FileTree) (root : Path) (paths : List Path) :
    let reports := fun root => (inspect loader tree root paths).value
    (reports root).map FileReport.file = (reports root.normal).map FileReport.file ∧
    ((reports root).map FileReport.project = (reports root.normal).map FileReport.project ↔
      root.Same root.normal ∨ ∀ report ∈ reports root.normal, report.project = "<global>") ∧
    (¬ root.Same root.normal → ∀ report ∈ reports root, report.project = "<global>") ∧
    ∀ report ∈ reports root, report.project ≠ "<global>" → report.file.startsWith root = true := by
  intro reports
  refine ⟨?_, ?_, ?_, ?_⟩
  · rw [files_inspect, files_inspect]
    exact List.map_congr_left fun path _ => (root.normal_join path).symm
  · rw [projects_inspect, projects_inspect, all_global_iff, List.map_inj_left]
    constructor
    · intro alike
      by_cases same : root.Same root.normal
      · exact .inl same
      · refine .inr fun path member => ?_
        rw [← alike path member]
        exact projectOf_of_apart same path
    · rintro (same | global) path member
      · exact projectOf_same same path
      · by_cases same : root.Same root.normal
        · exact projectOf_same same path
        · rw [global path member]
          exact projectOf_of_apart same path
  · intro apart
    rw [all_global_iff]
    exact fun path _ => projectOf_of_apart apart path
  · intro report member governed
    have pair := List.mem_map_of_mem (f := fun r : FileReport => (r.file, r.project)) member
    rw [show reports root = (inspectFrom loader tree root paths ∅).value from rfl,
      reports_of_inspectFrom] at pair
    obtain ⟨path, -, same⟩ := List.mem_map.mp pair
    obtain ⟨file, project⟩ := Prod.mk.inj same
    rw [← project] at governed
    rw [← file]
    exact startsWith_of_project governed

/-- The configuration beside a script does not govern it from the root that a dot spells. -/
example :
    let files := [(Path.ofString "tsconfig.json", "{}"), (.ofString "a.ts", "")]
    let projects := fun root => (inspect ⟨.default, true⟩ (MemoryFiles.ofList files).tree
      (.ofString root) [.ofString "a.ts"]).value.map FileReport.project
    projects "." = ["<global>"] ∧ projects "" = ["tsconfig.json"] := by
  decide

end Inspection

end ComponentProjects
