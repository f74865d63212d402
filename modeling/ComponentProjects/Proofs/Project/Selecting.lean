import ComponentProjects.Proofs.Glob.Base
import ComponentProjects.Proofs.Project.Precedence

/-! Which files of a tree in memory are the roots of a project. Only the directories that the
include patterns begin in are listed, each once; a file is taken where it is found first. Since no
pattern matches outside of its directory, the roots are the listed files and all that is
admitted. -/
namespace ComponentProjects

namespace Path

variable {paths kept : List Path} {p q : Path}

/-- Each path once, where it stands first. -/
def firsts : List Path → List Path
  | [] => []
  | p :: rest => p :: (firsts rest).filter fun q => !decide (p.Same q)

theorem exists_same_of_mem (member : p ∈ paths) : ∃ q ∈ firsts paths, q.Same p := by
  induction paths with
  | nil => cases member
  | cons first rest ih =>
    by_cases same : first.Same p
    · exact ⟨first, List.mem_cons_self, same⟩
    · rcases List.mem_cons.mp member with rfl | later
      · exact absurd (Same.refl p) same
      · obtain ⟨q, among, alike⟩ := ih later
        have apart : ¬ first.Same q := fun equal => same (equal.trans alike)
        exact ⟨q, .tail _ (List.mem_filter.mpr ⟨among, by simpa using apart⟩), alike⟩

/-- Whoever keeps a path only when no equal one is kept already keeps the first ones. -/
theorem foldl_keep (kept paths : List Path) :
    paths.foldl (fun kept p => if kept.any fun q => decide (q.Same p) then kept else kept ++ [p])
      kept = kept ++ (firsts paths).filter fun p => !kept.any fun q => decide (q.Same p) := by
  induction paths generalizing kept with
  | nil => simp [firsts]
  | cons p rest ih =>
    rw [List.foldl_cons, ih, firsts, List.filter_cons, List.filter_filter]
    cases held : kept.any fun q => decide (q.Same p) with
    | true =>
      -- what equals the dropped path equals the kept one, so it would be dropped as well
      have same : ∀ q, (!(kept.any fun k => decide (k.Same q)) && !decide (p.Same q)) =
          !kept.any fun k => decide (k.Same q) := by
        intro q
        by_cases alike : p.Same q
        · obtain ⟨k, among, equal⟩ := List.any_eq_true.mp held
          have also : (kept.any fun k => decide (k.Same q)) = true :=
            List.any_eq_true.mpr ⟨k, among, decide_eq_true ((of_decide_eq_true equal).trans alike)⟩
          rw [also]
          rfl
        · rw [decide_eq_false alike, Bool.not_false, Bool.and_true]
      simp only [if_true, Bool.not_true, Bool.false_eq_true, if_false, same]
    | false =>
      simp only [Bool.false_eq_true, if_false, Bool.not_false, if_true, List.append_assoc,
        List.singleton_append, List.any_append, List.any_cons, List.any_nil, Bool.or_false,
        Bool.not_or]

/-- Each group holds, in ascending order, paths beneath its own directory, and no later one does. -/
inductive Grouped : List Path → List (List Path) → Prop where
  | nil : Grouped [] []
  | cons {dir : Path} {dirs : List Path} {group : List Path} {groups : List (List Path)}
      (ascending : group.Pairwise fun p q => p.before q = true)
      (beneath : ∀ p ∈ group, p.isBeneath dir = true)
      (apart : ∀ p ∈ groups.flatten, p.isBeneath dir = false)
      (others : Grouped dirs groups) : Grouped (dir :: dirs) (group :: groups)

theorem Grouped.pairwise_not_same {dirs : List Path} {groups : List (List Path)}
    (grouped : Grouped dirs groups) : groups.flatten.Pairwise fun p q => ¬ p.Same q := by
  induction grouped with
  | nil => exact .nil
  | cons ascending beneath apart others ih =>
    rw [List.flatten_cons]
    refine List.pairwise_append.mpr ⟨ascending.imp not_same_of_before, ih, fun p own q later => ?_⟩
    intro same
    have inside := beneath p own
    rw [same.isBeneath_eq, apart q later] at inside
    cases inside

theorem sorted_of_pairwise (ascending : paths.Pairwise fun p q => p.before q = true) :
    sorted paths = paths := by
  refine List.mergeSort_of_pairwise (ascending.imp fun {p q} before => ?_)
  have less := before_iff.mp before
  rw [Bool.not_eq_true', ← Bool.not_eq_true, before_iff]
  exact List.lt_asymm less

end Path

theorem Selection.bases_eq (s : Selection) : s.bases = Path.firsts (s.included.map Glob.base) := by
  have kept := Path.foldl_keep [] (s.included.map Glob.base)
  rw [List.foldl_map] at kept
  simpa [bases] using kept

namespace Selection

variable {files : Table Path String} {s : Selection}

/-- A file that the patterns and the endings admit. -/
def Admitted (files : Table Path String) (s : Selection) (p : Path) : Prop :=
  p ∈ files.keys ∧ (∃ ending ∈ endings, p.endsWith ending = true) ∧
    (∃ g ∈ s.included, g.isMatch p = true) ∧ ∀ g ∈ s.excluded, g.isMatch p = false

/-- What one directory adds to the roots found so far. -/
def fresh (files : Table Path String) (s : Selection) (roots : List Path) (dir : Path) :
    List Path :=
  ((MemoryFiles.beneath files dir).filter (FileTree.admits endings)).filter fun p =>
    s.admits p && !roots.any fun q => decide (q.Same p)

theorem mem_fresh_iff {roots : List Path} {dir p : Path} : p ∈ fresh files s roots dir ↔
    s.Admitted files p ∧ (∀ q ∈ roots, ¬ q.Same p) ∧ p.isBeneath dir = true := by
  have ends : FileTree.admits endings p = true ↔ ∃ ending ∈ endings, p.endsWith ending = true :=
    List.any_eq_true
  have fits : s.admits p = true ↔
      (∃ g ∈ s.included, g.isMatch p = true) ∧ ∀ g ∈ s.excluded, g.isMatch p = false := by
    simp [admits]
  have new : (!roots.any fun q => decide (q.Same p)) = true ↔ ∀ q ∈ roots, ¬ q.Same p := by simp
  rw [fresh, MemoryFiles.beneath, List.mem_filter, List.mem_filter, List.mem_filter,
    Bool.and_eq_true, ends, fits, new]
  constructor
  · rintro ⟨⟨⟨file, beneath⟩, ending⟩, ⟨included, excluded⟩, apart⟩
    exact ⟨⟨file, ending, included, excluded⟩, apart, beneath⟩
  · rintro ⟨⟨file, ending, included, excluded⟩, apart, beneath⟩
    exact ⟨⟨⟨file, beneath⟩, ending⟩, ⟨included, excluded⟩, apart⟩

theorem pairwise_fresh (files : Table Path String) (s : Selection) (roots : List Path)
    (dir : Path) : (fresh files s roots dir).Pairwise fun p q => p.before q = true :=
  ((files.pairwise_keys.filter _).filter _).filter _

theorem value_gather (roots : List Path) (dir : Path) :
    (gather (MemoryFiles.treeOf files) s roots dir).value = roots ++ fresh files s roots dir := by
  have ascending := Path.sorted_of_pairwise (pairwise_fresh files s roots dir)
  exact congrArg (roots ++ ·) ascending

/-- Going through directories one by one, everything admitted beneath any of them is added. -/
theorem exists_groups (files : Table Path String) (s : Selection) (dirs roots : List Path) :
    ∃ groups,
    (dirs.foldlM (gather (MemoryFiles.treeOf files) s) roots).value = roots ++ groups.flatten ∧
    Path.Grouped dirs groups ∧ ∀ p, p ∈ groups.flatten ↔
      s.Admitted files p ∧ (∀ q ∈ roots, ¬ q.Same p) ∧ ∃ dir ∈ dirs, p.isBeneath dir = true := by
  induction dirs generalizing roots with
  | nil => exact ⟨[], by simp, .nil, by simp⟩
  | cons dir rest ih =>
    let group := fresh files s roots dir
    obtain ⟨groups, value, grouped, members⟩ := ih (roots ++ group)
    have apart : ∀ p ∈ groups.flatten, p.isBeneath dir = false := by
      intro p member
      obtain ⟨admitted, new, -⟩ := (members p).mp member
      refine Bool.eq_false_iff.mpr fun beneath => ?_
      -- it would have been taken with this directory
      have taken : p ∈ group := mem_fresh_iff.mpr
        ⟨admitted, fun q among => new q (List.mem_append_left _ among), beneath⟩
      exact new p (List.mem_append_right _ taken) (.refl p)
    refine ⟨group :: groups, ?_, .cons (pairwise_fresh files s roots dir)
      (fun p member => (mem_fresh_iff.mp member).2.2) apart grouped, fun p => ?_⟩
    · rw [List.foldlM_cons, Noted.value_bind, value_gather, value, List.flatten_cons,
        List.append_assoc]
    · rw [List.flatten_cons, List.mem_append, mem_fresh_iff, members]
      constructor
      · rintro (⟨admitted, new, beneath⟩ | ⟨admitted, new, place, among, beneath⟩)
        · exact ⟨admitted, new, dir, List.mem_cons_self, beneath⟩
        · exact ⟨admitted, fun q early => new q (List.mem_append_left _ early), place,
            .tail _ among, beneath⟩
      · rintro ⟨admitted, new, place, among, beneath⟩
        by_cases here : p.isBeneath dir = true
        · exact .inl ⟨admitted, new, here⟩
        · rcases List.mem_cons.mp among with rfl | later
          · exact absurd beneath here
          · refine .inr ⟨admitted, fun q held same => ?_, place, later, beneath⟩
            rcases List.mem_append.mp held with early | taken
            · exact new q early same
            · rw [← same.isBeneath_eq] at here
              exact here (mem_fresh_iff.mp taken).2.2

theorem last_of_ending {ending : String} (among : ending ∈ endings) {p : Path}
    (ends : p.endsWith ending = true) : ∃ c, p.text.getLast? = some c ∧ c ≠ '/' ∧ c ≠ '.' := by
  have letter : ∀ e ∈ endings, e.toList ≠ [] ∧
      ∃ c, e.toList.getLast? = some c ∧ c ≠ '/' ∧ c ≠ '.' := by simp [endings]
  obtain ⟨some, c, last, other⟩ := letter ending among
  exact ⟨c, (Path.getLast?_of_endsWith some ends).trans last, other⟩

/-- The roots are complete: what an include pattern matches is beneath one of the listed
directories. -/
theorem Admitted.exists_base {p : Path} (admitted : s.Admitted files p) (plain : '\\' ∉ p.text)
    (compiled : ∀ g ∈ s.included, ∃ dir pattern, g = Glob.ofInclude dir pattern) :
    ∃ dir ∈ s.bases, p.isBeneath dir = true := by
  obtain ⟨-, ⟨ending, among, ends⟩, ⟨g, member, found⟩, -⟩ := admitted
  obtain ⟨c, last, slash, dot⟩ := last_of_ending among ends
  obtain ⟨dir, pattern, rfl⟩ := compiled g member
  have beneath := Glob.isBeneath_of_isMatch found plain last slash dot
  obtain ⟨base, kept, same⟩ := Path.exists_same_of_mem (List.mem_map_of_mem member)
  rw [bases_eq]
  exact ⟨base, kept, same.isBeneath_dir_eq.trans beneath⟩

theorem compiled_ofChain (chain : List ProjectFile) (dir : Path) :
    ∀ g ∈ (ofChain chain dir).included, ∃ place pattern, g = Glob.ofInclude place pattern := by
  intro g member
  rw [ofChain_eq] at member
  simp only at member
  cases given : Chain.included? chain with
  | none =>
    rw [given, Option.getD_none] at member
    split at member
    · cases member
    · exact ⟨dir, "**/*", List.mem_singleton.mp member⟩
  | some globs =>
    rw [given, Option.getD_some] at member
    obtain ⟨file, -, sets⟩ := List.exists_of_findSome?_eq_some given
    obtain ⟨patterns, -, rfl⟩ := Option.map_eq_some_iff.mp sets
    obtain ⟨pattern, -, rfl⟩ := List.mem_map.mp member
    exact ⟨file.directory, pattern, rfl⟩

end Selection

namespace Loader

/-- The root files of a project whose chain is whole: the files it lists, and then exactly the files
that its patterns and the endings admit and that are not listed, each once. They stand in groups,
one for each directory that an include pattern begins in. -/
theorem load_admitted (loader : Loader) (files : Table Path String) (path root : Path)
    {chain : List ProjectFile}
    (whole : (Chain.files (MemoryFiles.treeOf files) path).value = .ok chain)
    (plain : ∀ p ∈ files.keys, '\\' ∉ p.text) :
    let directory := path.parent?.getD root
    let listed := (Chain.listed? chain).getD []
    let included := (Chain.included? chain).getD
      (if (Chain.listed? chain).isSome then [] else [Glob.ofInclude directory "**/*"])
    let excluded := (Chain.excluded? chain).getD
        (Selection.defaultExcluded.map (Glob.ofExclude directory)) ++
      ((Chain.options chain).string? "outDir").toList.map fun out =>
        Glob.ofExclude (.ofString out) ""
    ∃ groups : List (List Path),
      (loader.load (MemoryFiles.treeOf files) (some path) root).value.rootFiles =
        listed ++ groups.flatten ∧
      Path.Grouped (Path.firsts (included.map Glob.base)) groups ∧
      (groups.flatten.Pairwise fun p q => ¬ p.Same q) ∧
      ∀ p, p ∈ groups.flatten ↔ p ∈ files.keys ∧
        (∃ ending ∈ Selection.endings, p.endsWith ending = true) ∧ (∀ q ∈ listed, ¬ q.Same p) ∧
        (∃ g ∈ included, g.isMatch p = true) ∧ ∀ g ∈ excluded, g.isMatch p = false := by
  intro directory listed included excluded
  let s : Selection := Selection.ofChain chain directory
  have parts : s = ⟨listed, included, excluded⟩ := Selection.ofChain_eq chain directory
  obtain ⟨groups, value, grouped, members⟩ := Selection.exists_groups files s s.bases s.listed
  refine ⟨groups, ?_, ?_, grouped.pairwise_not_same, fun p => ?_⟩
  · rw [load_of_chain loader root whole]
    change (s.rootFiles (MemoryFiles.treeOf files)).value = _
    rw [Selection.rootFiles, value, parts]
  · rw [Selection.bases_eq, parts] at grouped
    exact grouped
  · have admitted : s.Admitted files p ↔ p ∈ files.keys ∧
        (∃ ending ∈ Selection.endings, p.endsWith ending = true) ∧
        (∃ g ∈ included, g.isMatch p = true) ∧ ∀ g ∈ excluded, g.isMatch p = false := by
      rw [parts]
      rfl
    have new : (∀ q ∈ s.listed, ¬ q.Same p) ↔ ∀ q ∈ listed, ¬ q.Same p := by rw [parts]
    rw [members, new]
    constructor
    · rintro ⟨fits, fresh, -⟩
      obtain ⟨file, ends, included, excluded⟩ := admitted.mp fits
      exact ⟨file, ends, fresh, included, excluded⟩
    · rintro ⟨file, ends, fresh, included, excluded⟩
      have fits := admitted.mpr ⟨file, ends, included, excluded⟩
      have compiled := Selection.compiled_ofChain chain directory
      exact ⟨fits, fresh, fits.exists_base (plain p file) compiled⟩

end Loader

/-! A project that lists a file and includes two directories, one within the other. -/
namespace Sample

def selecting : Table Path String := .ofList
  [(project, "\x7b\"files\":[\"src/env.d.ts\"],\"include\":[\"src/lib\",\"src\"]," ++
      "\"exclude\":[\"**/*.spec.ts\"]\x7d"),
    (.ofString "/p/src/env.d.ts", ""), (.ofString "/p/src/a.ts", ""),
    (.ofString "/p/src/a.spec.ts", ""), (.ofString "/p/src/lib/b.ts", "")]

def selected : List ProjectFile :=
  (Chain.files (MemoryFiles.treeOf selecting) project).value.toOption.get (by decide +kernel)

theorem files_selecting :
    (Chain.files (MemoryFiles.treeOf selecting) project).value = .ok selected := by
  have found : (Chain.files (MemoryFiles.treeOf selecting) project).value.toOption =
      some selected := (Option.some_get _).symm
  cases outcome : (Chain.files (MemoryFiles.treeOf selecting) project).value with
  | error fault =>
    rw [outcome] at found
    cases found
  | ok chain =>
    rw [outcome] at found
    cases found
    rfl

end Sample

/-- The inner directory's file comes first, and a test file is in neither group. -/
theorem Loader.load_selected :
    let loader : Loader := ⟨.default, true⟩
    let files := Sample.selecting
    let tree := MemoryFiles.treeOf files
    (Chain.files tree Sample.project).value = .ok Sample.selected ∧
    (∀ p ∈ files.keys, '\\' ∉ p.text) ∧
    ∃ groups : List (List Path),
      (loader.load tree (some Sample.project) (.ofString "/")).value.rootFiles =
        .ofString "/p/src/env.d.ts" :: groups.flatten ∧
      Path.Grouped [.ofString "/p/src/lib", .ofString "/p/src"] groups ∧
      .ofString "/p/src/lib/b.ts" ∈ groups.flatten ∧ .ofString "/p/src/a.ts" ∈ groups.flatten ∧
      .ofString "/p/src/a.spec.ts" ∉ groups.flatten := by
  intro loader files tree
  have plain : ∀ p ∈ files.keys, '\\' ∉ p.text := by decide +kernel
  obtain ⟨groups, roots, grouped, -, members⟩ :=
    loader.load_admitted files Sample.project (.ofString "/") Sample.files_selecting plain
  have listed : (Chain.listed? Sample.selected).getD [] = [.ofString "/p/src/env.d.ts"] := by
    decide +kernel
  rw [listed] at roots
  refine ⟨Sample.files_selecting, plain, groups, roots, ?_, ?_, ?_, fun member => ?_⟩
  · exact Eq.subst (motive := (Path.Grouped · groups)) (by decide +kernel) grouped
  · exact (members _).mpr (by decide +kernel)
  · exact (members _).mpr (by decide +kernel)
  · exact absurd ((members _).mp member) (by decide +kernel)

end ComponentProjects
