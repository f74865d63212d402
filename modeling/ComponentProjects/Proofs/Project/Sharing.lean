import ComponentProjects.Proofs.Project.Rooting

/-! Configurations that reports share. A configuration is loaded once for all files of a project,
and project files that differ only in case are one project's. So a report tells the configuration
that the first of them has, while its project is spelled as for the reported file itself. -/
namespace ComponentProjects

variable {tree : FileTree} {loader : Loader} {root path : Path} {key : ProjectKey}

namespace Inspection

/-- The key of the project that governs a file of the list. -/
def keyOf (loader : Loader) (tree : FileTree) (root path : Path) : ProjectKey :=
  .ofGoverning (loader.governing? tree (root.join path).normal root).value

/-- The first of some keys for a project. -/
def firstAlike (keys : List ProjectKey) (key : ProjectKey) : Option ProjectKey :=
  keys.find? fun k => decide (k.folded = key.folded)

/-- What a project's configuration is when it is loaded under a key. -/
def loadedAs (loader : Loader) (tree : FileTree) (root : Path) (key : ProjectKey) : Configuration :=
  (loader.load tree key.file? root).value

/-- The report on a file among files that are governed under some keys. -/
def reportAmong (keys : List ProjectKey) (loader : Loader) (tree : FileTree) (root path : Path) :
    FileReport :=
  let file := (root.join path).normal
  let key := keyOf loader tree root path
  ⟨file, key.display, file.isTemplated, loadedAs loader tree root ((firstAlike keys key).getD key)⟩

/-- The table holds, for every project met so far, what was loaded when it was met first. -/
def Holds (loader : Loader) (tree : FileTree) (root : Path) (met : List ProjectKey)
    (loaded : Loaded) : Prop :=
  ∀ key, loaded.get? key = (firstAlike met key).map (loadedAs loader tree root)

theorem file?_loadedAs (loader : Loader) (tree : FileTree) (root : Path) (key : ProjectKey) :
    (loadedAs loader tree root key).file? = key.file? := by
  unfold loadedAs Loader.load
  cases key.file? <;> rfl

variable {met keys : List ProjectKey} {loaded : Loaded}

theorem firstAlike_append (key : ProjectKey) : firstAlike (met ++ keys) key =
    (firstAlike met key).or (firstAlike keys key) := List.find?_append

theorem firstAlike_cons_self (key : ProjectKey) (rest : List ProjectKey) :
    firstAlike (key :: rest) key = some key := List.find?_cons_of_pos (decide_eq_true rfl)

theorem firstAlike_same {first : ProjectKey} (found : firstAlike keys key = some first) :
    first.Same key := by
  unfold firstAlike at found
  have alike := List.find?_some found
  exact of_decide_eq_true alike

theorem firstAlike_congr {other : ProjectKey} (same : key.Same other) :
    firstAlike keys key = firstAlike keys other := by
  simp only [firstAlike, show key.folded = other.folded from same]

theorem firstAlike_of_apart {other : ProjectKey} (apart : ¬ key.Same other) :
    firstAlike [key] other = none := by
  refine List.find?_cons_of_neg ?_
  rw [decide_eq_true_eq]
  exact apart

/-- A configuration is given as it was loaded for the first key of its project, and the table goes
on to hold what it should. -/
theorem Holds.configurationOf (holds : Holds loader tree root met loaded) (key : ProjectKey) :
    let given := (configurationOf loader tree root key loaded).value
    given.1 = loadedAs loader tree root ((firstAlike met key).getD key) ∧
      Holds loader tree root (met ++ [key]) given.2 := by
  unfold Inspection.configurationOf
  cases first : firstAlike met key with
  | some k =>
    have held := holds key
    rw [first, Option.map_some] at held
    simp only [held]
    refine ⟨rfl, fun other => ?_⟩
    rw [firstAlike_append, Noted.value_pure, holds other]
    by_cases same : key.Same other
    · rw [← firstAlike_congr same, first, Option.some_or]
    · rw [firstAlike_of_apart same, Option.or_none]
  | none =>
    have missing := holds key
    rw [first, Option.map_none] at missing
    simp only [missing]
    refine ⟨rfl, fun other => ?_⟩
    simp only [Noted.value_bind, Noted.value_pure]
    rw [Table.get?_insert, firstAlike_append, holds other]
    by_cases same : key.Same other
    · rw [if_pos (ProjectKey.rank_eq_iff_same.mpr same), ← firstAlike_congr same, first,
        Option.none_or, ← firstAlike_congr same, firstAlike_cons_self]
      rfl
    · rw [if_neg (same ∘ ProjectKey.rank_eq_iff_same.mp), firstAlike_of_apart same, Option.or_none]

theorem Holds.inspectFrom (holds : Holds loader tree root met loaded) (paths : List Path) :
    (inspectFrom loader tree root paths loaded).value =
      paths.map (reportAmong (met ++ paths.map (keyOf loader tree root)) loader tree root) := by
  induction paths generalizing met loaded with
  | nil => rfl
  | cons path rest ih =>
    obtain ⟨own, after⟩ := holds.configurationOf (keyOf loader tree root path)
    -- the first of all keys for this project is the first up to this file
    have first : firstAlike (met ++ (path :: rest).map (keyOf loader tree root))
        (keyOf loader tree root path) =
          some ((firstAlike met (keyOf loader tree root path)).getD
            (keyOf loader tree root path)) := by
      rw [firstAlike_append, List.map_cons, firstAlike_cons_self]
      cases firstAlike met (keyOf loader tree root path) <;> rfl
    have others := ih after
    rw [List.append_assoc, List.singleton_append] at others
    rw [List.map_cons, reportAmong, first, Option.getD_some, ← own]
    exact congrArg (_ :: ·) others

theorem holds_empty (loader : Loader) (tree : FileTree) (root : Path) :
    Holds loader tree root [] ∅ := fun _ => rfl

theorem firstAlike_eq_self {earlier later : List ProjectKey}
    (own : ∀ k ∈ earlier, k.Same key → k = key) :
    firstAlike (earlier ++ key :: later) key = some key := by
  rw [firstAlike_append]
  cases first : firstAlike earlier key with
  | none => rw [Option.none_or, firstAlike_cons_self]
  | some k =>
    rw [Option.some_or, own k (List.mem_of_find?_eq_some first) (firstAlike_same first)]

theorem exists_firstAlike (member : key ∈ keys) : ∃ k, firstAlike keys key = some k := by
  obtain ⟨earlier, later, rfl⟩ := List.append_of_mem member
  rw [firstAlike_append, firstAlike_cons_self]
  cases firstAlike earlier key with
  | none => exact ⟨key, rfl⟩
  | some k => exact ⟨k, rfl⟩

/-- Each file is reported in its place, under the key of the project that governs it, with the
configuration that the first of the files of this project has. That is its own unless a project file
with another spelling of the key came first, and in any case it is the configuration of one project
with the reported one. -/
theorem inspect_shared (loader : Loader) (tree : FileTree) (root : Path) (paths : List Path) :
    let keys := paths.map (keyOf loader tree root)
    let reports := (inspect loader tree root paths).value
    reports = paths.map (reportAmong keys loader tree root) ∧
    (∀ earlier path later, paths = earlier ++ path :: later →
      (∀ other ∈ earlier, (keyOf loader tree root other).Same (keyOf loader tree root path) →
        keyOf loader tree root other = keyOf loader tree root path) →
      (reports[earlier.length]?).map FileReport.configuration =
        some (loadedAs loader tree root (keyOf loader tree root path))) ∧
    ∀ report ∈ reports, ∃ key ∈ keys, report.project = key.display ∧
      ProjectKey.Same ⟨report.configuration.file?⟩ key := by
  intro keys reports
  have all : reports = paths.map (reportAmong keys loader tree root) :=
    (holds_empty loader tree root).inspectFrom paths
  refine ⟨all, ?_, ?_⟩
  · intro earlier path later parted own
    have place : reports[earlier.length]? = some (reportAmong keys loader tree root path) := by
      rw [all, parted]
      simp
    have first : firstAlike keys (keyOf loader tree root path) =
        some (keyOf loader tree root path) := by
      simp only [keys, parted, List.map_append, List.map_cons]
      exact firstAlike_eq_self (List.forall_mem_map.mpr own)
    rw [place, Option.map_some, reportAmong, first, Option.getD_some]
  · intro report member
    rw [all] at member
    obtain ⟨path, among, rfl⟩ := List.mem_map.mp member
    have governed : keyOf loader tree root path ∈ keys := List.mem_map_of_mem among
    obtain ⟨first, found⟩ := exists_firstAlike governed
    refine ⟨_, governed, rfl, ?_⟩
    simp only [reportAmong, found, Option.getD_some, file?_loadedAs]
    exact firstAlike_same found

namespace Sample

/-- Two projects that only case tells apart. -/
def cased : FileTree := MemoryFiles.treeOf (.ofList
  [(.ofString "/p/App/tsconfig.json", "\x7b\x7d"), (.ofString "/p/App/a.ts", ""),
    (.ofString "/p/app/tsconfig.json", "\x7b\x7d"), (.ofString "/p/app/b.ts", "")])

/-- A project file that the empty name leads to. -/
def bare : FileTree :=
  MemoryFiles.treeOf (.ofList [(.ofString "", "\x7b\x7d"), (.ofString "a.ts", "")])

end Sample

/-- The second file is reported with the project file of the first one, which differs from its own.
A project file with an empty path is not loaded either. -/
theorem inspect_not_own :
    let own := fun (loader : Loader) (tree : FileTree) (root path : Path) =>
      (loader.load tree (loader.governing? tree (root.join path).normal root).value root).value
    (inspect ⟨.default, true⟩ Sample.cased (.ofString "/p")
        [.ofString "App/a.ts", .ofString "app/b.ts"]).value.map FileReport.configuration ≠
      [.ofString "App/a.ts", .ofString "app/b.ts"].map
        (own ⟨.default, true⟩ Sample.cased (.ofString "/p")) ∧
    (inspect ⟨⟨[""], "widget"⟩, true⟩ Sample.bare (.ofString "")
        [.ofString "a.ts"]).value.map FileReport.configuration ≠
      [.ofString "a.ts"].map (own ⟨⟨[""], "widget"⟩, true⟩ Sample.bare (.ofString "")) := by
  intro own
  constructor
  · intro alike
    have files := congrArg (List.map Configuration.file?) alike
    revert files
    decide +kernel
  · intro alike
    have files := congrArg (List.map Configuration.file?) alike
    revert files
    decide +kernel

/-- The second file shares the configuration of the first one, which is its own. -/
theorem inspect_shared_grouped :
    let loader : Loader := ⟨.default, true⟩
    let root := Path.ofString "/p"
    let paths := [Path.ofString "App/a.ts", .ofString "App/main.ts", .ofString "app/b.ts"]
    let reports := (inspect loader Sample.cased root paths).value
    reports.map FileReport.project =
      ["/p/App/tsconfig.json", "/p/App/tsconfig.json", "/p/app/tsconfig.json"] ∧
    (reports[1]?).map FileReport.configuration =
      some (loader.load Sample.cased (some (.ofString "/p/App/tsconfig.json")) root).value := by
  intro loader root paths reports
  obtain ⟨-, owned, -⟩ := inspect_shared loader Sample.cased root paths
  have key : keyOf loader Sample.cased root (.ofString "App/main.ts") =
      ⟨some (.ofString "/p/App/tsconfig.json")⟩ := by decide +kernel
  have own := owned [.ofString "App/a.ts"] (.ofString "App/main.ts") [.ofString "app/b.ts"] rfl
    (by decide +kernel)
  rw [key] at own
  exact ⟨by decide +kernel, own⟩

end Inspection

end ComponentProjects
