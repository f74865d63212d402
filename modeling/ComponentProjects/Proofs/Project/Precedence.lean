import ComponentProjects.Proofs.Project.Degrading

/-! Which file of a chain has its way. Each option, and each of the lists, is decided on its own by
the nearest file that sets it, and paths are read from that file's directory. The forced options
stand above the chain and the seeded baseline beneath it. -/
namespace ComponentProjects

namespace Chain

variable {α : Type} {field : ProjectFile → Option α} {chain : List ProjectFile}

/-- The nearest file of a chain that sets a field, with what it sets. -/
def first? (field : ProjectFile → Option α) (chain : List ProjectFile) : Option (ProjectFile × α) :=
  chain.findSome? fun file => (field file).map (file, ·)

theorem findSome?_eq_first? {β : Type} (field : ProjectFile → Option α)
    (give : ProjectFile → α → β) (chain : List ProjectFile) :
    (chain.findSome? fun file => (field file).map (give file)) =
      (first? field chain).map fun set => give set.1 set.2 := by
  induction chain with
  | nil => rfl
  | cons file rest ih =>
    rw [first?, List.findSome?_cons, List.findSome?_cons]
    cases field file with
    | none => exact ih
    | some a => rfl

end Chain

namespace ProjectFile

/-- Text is a path of the file, and is worked out from the file's directory. -/
def settledPath (file : ProjectFile) : Json → Json
  | .string path => .string (file.resolve path).toString
  | value => value

/-- What a file sets an option to. -/
def settled (file : ProjectFile) (key : String) (value : Json) : Json :=
  if key ∈ pathOptions then file.settledPath value else value

theorem get?_settleOption (file : ProjectFile) (options : Options) (k key : String) :
    (file.settleOption options k).get? key =
      if k = key then (options.get? key).map file.settledPath else options.get? key := by
  unfold settleOption Options.string?
  split
  · rename_i path found
    obtain ⟨value, set, text⟩ := Option.bind_eq_some_iff.mp found
    simp only [Table.get?_insert, rank_string_inj]
    split
    · rename_i same
      subst same
      rw [set]
      cases value with
      | string other =>
        cases text
        rfl
      | _ => cases text
    · rfl
  · rename_i none
    split
    · rename_i same
      subst same
      cases set : options.get? k with
      | none => rfl
      | some value =>
        rw [set] at none
        cases value with
        | string path => cases none
        | _ => rfl
    · rfl

theorem get?_foldl_settleOption (file : ProjectFile) {keys : List String} (nodup : keys.Nodup)
    (options : Options) (key : String) : (keys.foldl file.settleOption options).get? key =
      if key ∈ keys then (options.get? key).map file.settledPath else options.get? key := by
  induction keys generalizing options with
  | nil => rfl
  | cons k rest ih =>
    obtain ⟨apart, nodup⟩ := List.nodup_cons.mp nodup
    rw [List.foldl_cons, ih nodup, get?_settleOption]
    by_cases same : k = key
    · subst same
      rw [if_neg apart, if_pos rfl, if_pos List.mem_cons_self]
    · rw [if_neg same]
      simp only [List.mem_cons, Ne.symm same, false_or]

theorem get?_settledOptions (file : ProjectFile) (key : String) :
    file.settledOptions.get? key = (file.options.get? key).map (file.settled key) := by
  rw [settledOptions, get?_foldl_settleOption file (by decide)]
  unfold settled
  split
  · rfl
  · exact Option.map_id'.symm

end ProjectFile

theorem Chain.get?_options (chain : List ProjectFile) (key : String) :
    (Chain.options chain).get? key =
      (first? (·.options.get? key) chain).map fun set => set.1.settled key set.2 := by
  have layers : (chain.reverse.map ProjectFile.settledOptions).reverse =
      chain.map ProjectFile.settledOptions := by
    rw [← List.map_reverse, List.reverse_reverse]
  rw [Chain.options, Options.get?_layered, layers, List.findSome?_map,
    ← findSome?_eq_first? (·.options.get? key) fun file value => file.settled key value]
  exact congrArg (chain.findSome? ·) (funext fun file => file.get?_settledOptions key)

theorem Selection.ofChain_eq (chain : List ProjectFile) (dir : Path) : ofChain chain dir =
    { listed := (Chain.listed? chain).getD []
      included := (Chain.included? chain).getD
        (if (Chain.listed? chain).isSome then [] else [Glob.ofInclude dir "**/*"])
      excluded := (Chain.excluded? chain).getD (defaultExcluded.map (Glob.ofExclude dir)) ++
        ((Chain.options chain).string? "outDir").toList.map fun out =>
          Glob.ofExclude (.ofString out) "" } := by
  unfold ofChain
  cases Chain.included? chain <;> cases Chain.listed? chain <;> rfl

namespace Loader

variable {path root : Path} {chain : List ProjectFile} {files : Table Path String}

theorem load_of_chain (loader : Loader) (root : Path) {tree : FileTree}
    (whole : (Chain.files tree path).value = .ok chain) :
    let directory := path.parent?.getD root
    (loader.load tree (some path) root).value = ⟨some path, directory,
      .layered [(loader.seededBaseline tree directory).value, Chain.options chain, .forced],
      ((Selection.ofChain chain directory).rootFiles tree).value⟩ := by
  intro directory
  have own : (contribution tree path directory).value =
      (Chain.options chain, ((Selection.ofChain chain directory).rootFiles tree).value) := by
    simp only [contribution, Noted.value_bind, whole]
    rfl
  simp only [load_of_file, Noted.value_bind]
  rw [own]
  rfl

/-- What a project whose chain is whole is made of. An option has its forced value, or else that of
the nearest file that sets it, or else the baseline's, and each of the lists that decide the root
files is that of the nearest file that has it. -/
theorem load_nearest_first (loader : Loader) (files : Table Path String) (path root : Path)
    {read : List ProjectFile} {last : Path} {file : ProjectFile}
    (trail : Chain.Trail (MemoryFiles.treeOf files) path read last)
    (stop : Chain.Stop (MemoryFiles.treeOf files) read last (.ok file)) :
    let tree := MemoryFiles.treeOf files
    let chain := read ++ [file]
    let directory := path.parent?.getD root
    let loaded := (loader.load tree (some path) root).value
    let listed? := (Chain.first? (·.listed?) chain).map fun set => set.2.map set.1.resolve
    let included? := (Chain.first? (·.included?) chain).map fun set =>
      set.2.map (Glob.ofInclude set.1.directory)
    let excluded? := (Chain.first? (·.excluded?) chain).map fun set =>
      set.2.map (Glob.ofExclude set.1.directory)
    (∀ key, loaded.options.get? key = (Options.forced.get? key).or
      (((Chain.first? (·.options.get? key) chain).map fun set => set.1.settled key set.2).or
        ((if key = "types" then
          (loader.typings? tree directory).map fun typings => .array [.string typings.toString]
        else none).or (Options.baseline.get? key)))) ∧
    loaded.rootFiles = (Selection.rootFiles tree {
      listed := listed?.getD []
      included := included?.getD (if listed?.isSome then [] else [Glob.ofInclude directory "**/*"])
      excluded := excluded?.getD (Selection.defaultExcluded.map (Glob.ofExclude directory)) ++
        ((Chain.options chain).string? "outDir").toList.map fun out =>
          Glob.ofExclude (.ofString out) "" }).value := by
  intro tree chain directory loaded listed? included? excluded?
  have whole : (Chain.files tree path).value = .ok chain := Chain.value_files trail stop
  have configuration := load_of_chain loader root whole
  simp only [loaded, configuration]
  constructor
  · intro key
    rw [get?_layers, Chain.get?_options, get?_seededBaseline]
  · have listed : Chain.listed? chain = listed? :=
      Chain.findSome?_eq_first? _ (fun file => List.map file.resolve) chain
    have included : Chain.included? chain = included? :=
      Chain.findSome?_eq_first? _ (fun file => List.map (Glob.ofInclude file.directory)) chain
    have excluded : Chain.excluded? chain = excluded? :=
      Chain.findSome?_eq_first? _ (fun file => List.map (Glob.ofExclude file.directory)) chain
    change ((Selection.ofChain chain directory).rootFiles tree).value = _
    rw [Selection.ofChain_eq, listed, included, excluded]

end Loader

/-! A project file that builds on another one, in another directory, beside an installed package. -/
namespace Sample

def project : Path := .ofString "/p/tsconfig.json"
def shared : Path := .ofString "/p/base/shared.json"

def inheriting : Table Path String := .ofList
  [(project, "\x7b\"extends\":\"./base/shared\",\"files\":[\"a.ts\"]," ++
      "\"compilerOptions\":\x7b\"outDir\":\"out\"\x7d\x7d"),
    (shared, "\x7b\"include\":[\"src\"],\"exclude\":[\"src/old\"]," ++
      "\"compilerOptions\":\x7b\"outDir\":\"lib\",\"baseUrl\":\"src\"\x7d\x7d"),
    (.ofString "/p/a.ts", ""), (.ofString "/p/src/b.ts", ""), (.ofString "/p/base/src/c.ts", ""),
    (.ofString "/p/base/src/old/d.ts", ""),
    (.ofString "/p/node_modules/widget/package.json", "\x7b\"types\":\"index.d.ts\"\x7d")]

def nearer : ProjectFile where
  path := project
  options := .ofList [("outDir", .string "out")]
  base? := some "./base/shared"
  listed? := some ["a.ts"]
  included? := none
  excluded? := none

def further : ProjectFile where
  path := shared
  options := .ofList [("baseUrl", .string "src"), ("outDir", .string "lib")]
  base? := none
  listed? := none
  included? := some ["src"]
  excluded? := some ["src/old"]

theorem read_nearer : Chain.read? (MemoryFiles.treeOf inheriting) project = some nearer := by
  rfl

theorem read_further : Chain.read? (MemoryFiles.treeOf inheriting) shared = some further := by
  rfl

theorem trail_inheriting : Chain.Trail (MemoryFiles.treeOf inheriting) project [nearer] shared := by
  have leads : (Chain.base? (MemoryFiles.treeOf inheriting) "./base/shared"
      nearer.directory).value = some shared := by decide +kernel
  exact .onward .start (by simp) read_nearer rfl leads

theorem stop_inheriting :
    Chain.Stop (MemoryFiles.treeOf inheriting) [nearer] shared (.ok further) := by
  have fresh : ∀ f ∈ [nearer], ¬ f.path.Same shared := by decide
  exact .whole fresh read_further rfl

end Sample

/-- Both files set one option. Only the nearer one lists files, and only the further one sets
another option and says which directories are included and excluded. -/
theorem Loader.load_inherited :
    let loader : Loader := ⟨.default, true⟩
    let loaded := (loader.load (MemoryFiles.treeOf Sample.inheriting) (some Sample.project)
      (.ofString "/")).value
    loaded.options.string? "outDir" = some "/p/out" ∧
      loaded.options.string? "baseUrl" = some "/p/base/src" ∧
      loaded.options.bool? "noEmit" = some true ∧
      loaded.options.get? "types" =
        some (.array [.string "/p/node_modules/widget/index.d.ts"]) ∧
      loaded.rootFiles = [.ofString "/p/a.ts", .ofString "/p/base/src/c.ts"] := by
  intro loader loaded
  obtain ⟨decided, lists⟩ := loader.load_nearest_first _ _ (.ofString "/") Sample.trail_inheriting
    Sample.stop_inheriting
  have located : loader.typings? (MemoryFiles.treeOf Sample.inheriting)
      (Sample.project.parent?.getD (.ofString "/")) =
        some (.ofString "/p/node_modules/widget/index.d.ts") := by decide +kernel
  refine ⟨?_, ?_, ?_, ?_, ?_⟩
  · rw [Options.string?, decided]
    decide +kernel
  · rw [Options.string?, decided]
    decide +kernel
  · rw [Options.bool?, decided]
    rfl
  · rw [decided, located]
    rfl
  · rw [lists]
    decide +kernel

end ComponentProjects
