import ComponentProjects.Proofs.FileTree.Views
import ComponentProjects.Proofs.Registry.Spelling

/-! Which project file governs a path. The search stops at the first directory outside of the root,
and no directory further up lies within it again, so what is searched is all of the enclosing
directories that do. The file that is found is the first one there, by directory and then by name,
and no file is asked about beyond it. -/
namespace List

theorem takeWhile_eq_filter_of_pairwise {test : α → Bool} {as : List α}
    (closed : as.Pairwise fun near far => test far = true → test near = true) :
    as.takeWhile test = as.filter test := by
  induction closed with
  | nil => rfl
  | @cons a as first _ ih =>
    cases here : test a with
    | true => rw [takeWhile_cons, filter_cons, here, if_pos rfl, if_pos rfl, ih]
    | false =>
      have none : as.filter test = [] := filter_eq_nil_iff.mpr fun far member kept => by
        rw [first far member kept] at here
        cases here
      rw [takeWhile_cons, filter_cons, here, none]
      rfl

end List

namespace ComponentProjects

variable {p path root : Path} {loader : Loader}

namespace Component

/-- What encloses a path is told by fewer and fewer of its components. -/
theorem pairwise_above (parts : List Component) : (parts :: above parts).Pairwise
    fun near far => far <:+ near ∧ far.length < near.length := by
  induction parts with
  | nil => exact List.pairwise_singleton _ _
  | cons part rest ih =>
    refine List.pairwise_cons.mpr ⟨fun far enclosing => ?_, ?_⟩
    · refine ⟨Path.suffix_of_mem_above enclosing, ?_⟩
      cases rest with
      | nil =>
        unfold above at enclosing
        split at enclosing
        · cases enclosing
        · rw [List.mem_singleton.mp enclosing]
          exact Nat.zero_lt_succ _
      | cons next rest =>
        rcases List.mem_cons.mp enclosing with rfl | further
        · exact Nat.lt_succ_self _
        · have less := List.rel_of_pairwise_cons ih further
          exact Nat.lt_succ_of_lt less.2
    · cases rest with
      | nil =>
        unfold above
        split
        · exact .nil
        · exact List.pairwise_singleton _ _
      | cons next rest => exact ih

end Component

namespace Path

theorem pairwise_ancestors (p : Path) : p.ancestors.Pairwise fun near far =>
    near.startsWith far = true ∧ far.components.length < near.components.length := by
  have parts : p.ancestors.map (fun q => q.components.reverse) =
      p.components.reverse :: Component.above p.components.reverse := by
    rw [ancestors, List.map_cons, components_parents]
  have above := Component.pairwise_above p.components.reverse
  rw [← parts, List.pairwise_map] at above
  refine above.imp fun {near far} fewer => ⟨?_, ?_⟩
  · exact startsWith_iff.mpr (List.reverse_suffix.mp fewer.1)
  · simpa using fewer.2

/-- Beyond the first directory outside of a root none lies within it. -/
theorem takeWhile_startsWith (p root : Path) :
    p.ancestors.takeWhile (·.startsWith root) = p.ancestors.filter (·.startsWith root) := by
  apply List.takeWhile_eq_filter_of_pairwise
  exact p.pairwise_ancestors.imp fun {near far} fewer within => startsWith_trans fewer.1 within

end Path

namespace Noted

theorem questions_bind (x : Noted α) (f : α → Noted β) :
    (x >>= f).questions = x.questions ++ (f x.value).questions :=
  List.filterMap_append

end Noted

namespace MemoryFiles

variable {files changed : Table Path String} {file : Path}

theorem Touches.contains_eq (touches : Touches files file changed) (apart : ¬ p.Same file) :
    changed.contains p = files.contains p := by
  have other : rank file ≠ rank p := fun same => apart (Path.rank_eq_iff_same.mp same.symm)
  cases touches with
  | written text => rw [Table.contains, Table.get?_insert, if_neg other, Table.contains]
  | removed => rw [Table.contains, Table.get?_erase, if_neg other, Table.contains]

/-- What a row of questions for the first file comes to: files are asked about one after the other,
up to the first that is there. -/
inductive Finds (files : Table Path String) (paths : List Path) : Noted (Option Path) → Prop where
  | missed {search : Noted (Option Path)} (none : search.value = none)
    (asked : search.questions = paths.map .isFile) : Finds files paths search
  | found {search : Noted (Option Path)} (earlier : List Path) (c : Path) (later : List Path)
    (row : paths = earlier ++ c :: later) (some : search.value = some c)
    (asked : search.questions = (earlier ++ [c]).map .isFile)
    (missing : ∀ e ∈ earlier, files.contains e = false) (there : files.contains c = true) :
    Finds files paths search

theorem Finds.mem_of_asked {paths : List Path} {search : Noted (Option Path)}
    (finds : Finds files paths search) (asked : .isFile p ∈ search.questions) : p ∈ paths := by
  cases finds with
  | missed none all =>
    rw [all] at asked
    obtain ⟨_, member, same⟩ := List.mem_map.mp asked
    cases same
    exact member
  | found earlier c later row some all missing there =>
    rw [all] at asked
    obtain ⟨_, member, same⟩ := List.mem_map.mp asked
    cases same
    rw [row, List.append_cons]
    exact List.mem_append_left _ member

theorem firstFile_cons (files : Table Path String) (first : Path) (rest : List Path) :
    (treeOf files).firstFile (first :: rest) = ⟨if files.contains first then some first
        else ((treeOf files).firstFile rest).value, .asked (.isFile first) ::
      if files.contains first then [] else ((treeOf files).firstFile rest).notes⟩ := by
  simp only [FileTree.firstFile, Noted.firstSome, FileTree.file?, treeOf]
  generalize files.contains first = there
  cases there <;> rfl

theorem firstFile_finds (files : Table Path String) (paths : List Path) :
    Finds files paths ((treeOf files).firstFile paths) := by
  induction paths with
  | nil => exact .missed rfl rfl
  | cons first rest ih =>
    rw [firstFile_cons]
    cases there : files.contains first with
    | true => exact .found [] first rest rfl rfl rfl (fun e member => by cases member) there
    | false =>
      cases ih with
      | missed none asked => exact .missed none (congrArg (Question.isFile first :: ·) asked)
      | found earlier c later row some asked missing found =>
        refine .found (first :: earlier) c later (row ▸ rfl) some ?_
          (List.forall_mem_cons.mpr ⟨there, missing⟩) found
        exact congrArg (Question.isFile first :: ·) asked

end MemoryFiles

namespace Loader

variable {tree : FileTree} {files changed : Table Path String} {file c : Path}
  {dirs names : List Path}

/-- The directories whose project files may govern a path: where the search begins and what encloses
that, as far as they lie within the root. -/
def within (tree : FileTree) (path root : Path) : List Path :=
  (start? tree path).elim [] fun start => start.ancestors.filter (·.startsWith root)

theorem pairwise_within (tree : FileTree) (path root : Path) : (within tree path root).Pairwise
    fun near far => far.components.length < near.components.length := by
  unfold within
  cases start? tree path with
  | none => exact .nil
  | some start => exact List.Pairwise.filter _ (start.pairwise_ancestors.imp And.right)

theorem startsWith_of_mem_within {dir : Path} (member : dir ∈ within tree path root) :
    dir.startsWith root = true := by
  unfold within at member
  cases begun : start? tree path with
  | none =>
    rw [begun] at member
    cases member
  | some start =>
    rw [begun] at member
    exact (List.mem_filter.mp member).2

theorem value_searched (tree : FileTree) (path root : Path) :
    (searched tree path root).value = within tree path root := by
  simp only [searched, within, start?, Noted.value_bind, ← Path.takeWhile_startsWith]
  cases (if (tree.isDirectory path).value = true then some path else path.parent?) <;> rfl

theorem governing?_finds (loader : Loader) (files : Table Path String) (path root : Path) :
    ∃ search, (loader.governing? (MemoryFiles.treeOf files) path root).value = search.value ∧
      (loader.governing? (MemoryFiles.treeOf files) path root).questions =
        .isDirectory path :: search.questions ∧
      MemoryFiles.Finds files (loader.candidates (within (MemoryFiles.treeOf files) path root))
        search := by
  refine ⟨_, ?_, ?_, MemoryFiles.firstFile_finds files _⟩
  · rw [governing?, Noted.value_bind, value_searched]
  · rw [governing?, Noted.questions_bind, value_searched]
    rfl

/-- The file that decides a search: no name leads to a file in a nearer directory, nor an earlier
name in its own. -/
structure First (files : Table Path String) (dirs : List Path) (names : List String) (c : Path) :
    Prop where
  place : ∃ nearer dir further earlier name later, dirs = nearer ++ dir :: further ∧
    names = earlier ++ name :: later ∧ c = dir.join (.ofString name) ∧
    (∀ d ∈ nearer, ∀ n ∈ names, files.contains (d.join (.ofString n)) = false) ∧
    ∀ n ∈ earlier, files.contains (dir.join (.ofString n)) = false
  there : files.contains c = true

theorem file?_memory_eq_none_iff {dir : Path} :
    loader.file? (MemoryFiles.treeOf files) dir = none ↔
      ∀ n ∈ loader.settings.configurationNames,
        files.contains (dir.join (.ofString n)) = false := by
  simp [file?, MemoryFiles.treeOf, Noted.ask]

theorem file?_memory_eq_some_iff {dir : Path} :
    loader.file? (MemoryFiles.treeOf files) dir = some c ↔
      ∃ earlier name later, loader.settings.configurationNames = earlier ++ name :: later ∧
        c = dir.join (.ofString name) ∧ files.contains c = true ∧
        ∀ n ∈ earlier, files.contains (dir.join (.ofString n)) = false := by
  unfold file?
  rw [List.find?_eq_some_iff_append]
  constructor
  · rintro ⟨there, before, after, row, missing⟩
    obtain ⟨earlier, rest, names, rfl, found⟩ := List.map_eq_append_iff.mp row
    obtain ⟨name, later, rfl, rfl, -⟩ := List.map_eq_cons_iff.mp found
    refine ⟨earlier, name, later, names, rfl, there, fun n member => ?_⟩
    have absent : (!files.contains (dir.join (.ofString n))) = true :=
      missing _ (List.mem_map_of_mem member)
    simpa using absent
  · rintro ⟨earlier, name, later, names, rfl, there, missing⟩
    refine ⟨there, earlier.map fun n => dir.join (.ofString n),
      later.map fun n => dir.join (.ofString n), ?_, ?_⟩
    · rw [names, List.map_append, List.map_cons]
    · intro e member
      obtain ⟨n, among, rfl⟩ := List.mem_map.mp member
      exact congrArg (!·) (missing n among)

theorem value_governing?_eq_findSome? (tree : FileTree) : (loader.governing? tree path root).value =
    (within tree path root).findSome? (loader.file? tree) := by
  rw [value_governing?, within]
  cases start? tree path with
  | none => rfl
  | some start => exact congrArg _ (Path.takeWhile_startsWith start root)

theorem governing?_eq_some_iff :
    (loader.governing? (MemoryFiles.treeOf files) path root).value = some c ↔
      First files (within (MemoryFiles.treeOf files) path root)
        loader.settings.configurationNames c := by
  rw [value_governing?_eq_findSome?, List.findSome?_eq_some_iff]
  constructor
  · rintro ⟨nearer, dir, further, row, found, missing⟩
    obtain ⟨earlier, name, later, names, rfl, there, before⟩ := file?_memory_eq_some_iff.mp found
    exact ⟨⟨nearer, dir, further, earlier, name, later, row, names, rfl,
      fun d member => file?_memory_eq_none_iff.mp (missing d member), before⟩, there⟩
  · rintro ⟨⟨nearer, dir, further, earlier, name, later, row, names, rfl, missing, before⟩, there⟩
    exact ⟨nearer, dir, further, row,
      file?_memory_eq_some_iff.mpr ⟨earlier, name, later, names, rfl, there, before⟩,
      fun d member => file?_memory_eq_none_iff.mpr (missing d member)⟩

theorem mem_candidates_iff : c ∈ loader.candidates dirs ↔
    ∃ d ∈ dirs, ∃ n ∈ loader.settings.configurationNames, c = d.join (.ofString n) := by
  simp [candidates, List.mem_flatMap, eq_comm]

theorem value_governing?_memory : (loader.governing? (MemoryFiles.treeOf files) path root).value =
    (loader.candidates (within (MemoryFiles.treeOf files) path root)).find? files.contains := by
  rw [governing?, Noted.value_bind, value_searched, Import.value_firstFile]
  rfl

/-- A change to a file that was not asked about leaves the answer, as long as the search begins in
the same directory. -/
theorem governing?_touched {earlier later : List Path}
    (row : loader.candidates (within (MemoryFiles.treeOf files) path root) =
      earlier ++ c :: later)
    (missing : ∀ e ∈ earlier, files.contains e = false) (there : files.contains c = true)
    (touches : MemoryFiles.Touches files file changed)
    (directory : ((MemoryFiles.treeOf changed).isDirectory path).value =
      ((MemoryFiles.treeOf files).isDirectory path).value)
    (apart : ∀ e ∈ earlier ++ [c], ¬ e.Same file) :
    (loader.governing? (MemoryFiles.treeOf changed) path root).value = some c := by
  have dirs : within (MemoryFiles.treeOf changed) path root =
      within (MemoryFiles.treeOf files) path root := by
    rw [within, within, start?, start?, directory]
  have still : changed.contains c = true := by
    rw [touches.contains_eq (apart c (by simp)), there]
  have none : earlier.find? changed.contains = none := by
    refine List.find?_eq_none.mpr fun e member => ?_
    rw [touches.contains_eq (apart e (List.mem_append_left _ member)), missing e member]
    exact Bool.false_ne_true
  rw [value_governing?_memory, dirs, row, List.find?_append, none, Option.none_or,
    List.find?_cons_of_pos still]

/-- The project of a path is looked for in the directories that enclose it and lie within the root,
the deepest first, and in each of them by the names in their order. What is found is the first file
there is, nothing is asked about beyond it or outside of the root, and no change to a file that was
not asked about leads to another project. -/
theorem governing?_nearest (loader : Loader) (files : Table Path String) (path root : Path) :
    let dirs := within (MemoryFiles.treeOf files) path root
    let names := loader.settings.configurationNames
    let search := loader.governing? (MemoryFiles.treeOf files) path root
    dirs.Pairwise (fun near far => far.components.length < near.components.length) ∧
    (search.value = none ↔
      ∀ d ∈ dirs, ∀ n ∈ names, files.contains (d.join (.ofString n)) = false) ∧
    (∀ c, search.value = some c ↔ First files dirs names c) ∧
    (∀ e, .isFile e ∈ search.questions →
      ∃ d ∈ dirs, d.startsWith root = true ∧ ∃ n ∈ names, e = d.join (.ofString n)) ∧
    ∀ c, search.value = some c → ∃ earlier later,
      loader.candidates dirs = earlier ++ c :: later ∧
      search.questions = .isDirectory path :: (earlier ++ [c]).map .isFile ∧
      ∀ file changed, MemoryFiles.Touches files file changed →
        ((MemoryFiles.treeOf changed).isDirectory path).value =
          ((MemoryFiles.treeOf files).isDirectory path).value →
        (∀ e ∈ earlier ++ [c], ¬ e.Same file) →
        (loader.governing? (MemoryFiles.treeOf changed) path root).value = some c := by
  intro dirs names search
  obtain ⟨row, value, questions, finds⟩ := loader.governing?_finds files path root
  refine ⟨pairwise_within .., ?_, fun c => governing?_eq_some_iff, ?_, ?_⟩
  · rw [value_governing?_eq_findSome?, List.findSome?_eq_none_iff]
    exact forall₂_congr fun _ _ => file?_memory_eq_none_iff
  · intro e asked
    have candidate : e ∈ loader.candidates dirs := by
      rw [questions] at asked
      rcases List.mem_cons.mp asked with directory | asked
      · cases directory
      · exact finds.mem_of_asked asked
    obtain ⟨dir, member, named⟩ := mem_candidates_iff.mp candidate
    exact ⟨dir, member, startsWith_of_mem_within member, named⟩
  · intro c found
    rw [show search.value = row.value from value] at found
    cases finds with
    | missed none => cases none.symm.trans found
    | found earlier d later parted some asked missing there =>
      cases some.symm.trans found
      refine ⟨earlier, later, parted, questions.trans (congrArg _ asked), ?_⟩
      intro file changed touches directory apart
      exact governing?_touched parted missing there touches directory apart

namespace Sample

def nested : Table Path String := .ofList [(.ofString "/p/tsconfig.json", "\x7b\x7d"),
  (.ofString "/p/src/jsconfig.json", "\x7b\x7d"), (.ofString "/p/src/lib/a.ts", "")]

end Sample

/-- The file further up may go: the search had ended before it came there. -/
theorem governing?_nearest_kept :
    let loader : Loader := ⟨.default, true⟩
    let path := Path.ofString "/p/src/lib/a.ts"
    let root := Path.ofString "/p"
    let nearest := Path.ofString "/p/src/jsconfig.json"
    (loader.governing? (MemoryFiles.treeOf Sample.nested) path root).value = some nearest ∧
    (loader.governing? (MemoryFiles.treeOf (Sample.nested.erase (.ofString "/p/tsconfig.json")))
      path root).value = some nearest := by
  intro loader path root nearest
  have found : (loader.governing? (MemoryFiles.treeOf Sample.nested) path root).value =
      some nearest := by decide +kernel
  have asked : (loader.governing? (MemoryFiles.treeOf Sample.nested) path root).questions =
      [.isDirectory path, .isFile (.ofString "/p/src/lib/tsconfig.json"),
        .isFile (.ofString "/p/src/lib/jsconfig.json"), .isFile (.ofString "/p/src/tsconfig.json"),
        .isFile nearest] := by decide +kernel
  obtain ⟨-, -, -, -, stays⟩ := governing?_nearest loader Sample.nested path root
  obtain ⟨earlier, later, -, questions, kept⟩ := stays nearest found
  refine ⟨found, kept _ _ .removed (by decide +kernel) fun e member => ?_⟩
  have among : .isFile e ∈ (loader.governing? (MemoryFiles.treeOf Sample.nested) path
      root).questions := by
    rw [questions]
    exact .tail _ (List.mem_map_of_mem member)
  rw [asked] at among
  simp only [List.mem_cons, reduceCtorEq, Question.isFile.injEq, List.not_mem_nil, or_false,
    false_or] at among
  rcases among with rfl | rfl | rfl | rfl <;> decide +kernel

end Loader

end ComponentProjects
