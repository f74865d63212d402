import Mathlib.Data.List.Nodup
import ComponentProjects.FileTree.Memory
import ComponentProjects.Proofs.Path.Normal
import ComponentProjects.Proofs.Table.Reading

/-! The views of a directory in memory. Directories are told by the paths of files alone, in three
ways: what lies beneath one, what a path leads through on its way down, and whether anything is
there. They agree, and they are decided by what lies beneath the directory. -/
namespace ComponentProjects

namespace Path

open Component (Spelled behind Settled)

variable {dir p : Path} {part : Component} {rest : List Component}

theorem text_lone (spelled : Spelled part) : (ofComponents [part]).text = part.text := by
  cases part with
  | root => cases spelled.1
  | _ => simp [ofComponents, joined, Component.text]

theorem isAbsolute_lone (spelled : Spelled part) : (ofComponents [part]).isAbsolute = false := by
  unfold isAbsolute
  rw [text_lone spelled, decide_eq_false_iff_not]
  intro slash
  exact spelled.2 (List.mem_of_mem_head? slash)

theorem components_lone_of_spelled (spelled : Spelled part) :
    (ofComponents [part]).components = [part] := by
  cases part with
  | root => cases spelled.1
  | current => cases spelled.1
  | parent => rfl
  | name word => exact (Settled.nil.name spelled).components_ofComponents

/-- A component of a path names the same when it stands alone. -/
theorem components_lone (member : part ∈ p.components) :
    (ofComponents [part]).components = [part] := by
  obtain ⟨first, rest, parts, lead, others⟩ := p.exists_first
  rw [parts] at member
  rcases List.mem_append.mp member with early | later
  · rcases lead part (Option.mem_toList.mp early) with rfl | rfl | spelled
    · rfl
    · rfl
    · exact components_lone_of_spelled spelled
  · exact components_lone_of_spelled (others part later)

theorem components_join_of_spelled (dir : Path) (spelled : Spelled part) :
    (dir.join (ofComponents [part])).components = dir.components ++ [part] := by
  by_cases none : dir.text = []
  · rw [join_of_empty (isAbsolute_lone spelled) none, components_lone_of_spelled spelled,
      components_eq_nil_iff.mpr none, List.nil_append]
  · have behind : behind (joined ([part].map Component.text)) = [part] :=
      Component.behind_joined (by simpa using spelled)
    have text : (ofComponents [part]).text = joined ([part].map Component.text) := by
      rw [text_lone spelled]
      simp [joined]
    rw [components_join (isAbsolute_lone spelled) none, text, behind]

/-- A component that is found behind a directory's own is read from that directory. -/
theorem components_join_lone (found : p.components = dir.components ++ part :: rest) :
    (dir.join (ofComponents [part])).components = dir.components ++ [part] := by
  by_cases none : dir.text = []
  · have member : part ∈ p.components := found ▸ List.mem_append_right _ List.mem_cons_self
    have itself : dir.join (ofComponents [part]) = ofComponents [part] := by
      cases absolute : (ofComponents [part]).isAbsolute with
      | true => exact join_of_absolute absolute
      | false => exact join_of_empty absolute none
    rw [itself, components_lone member, components_eq_nil_iff.mpr none, List.nil_append]
  · -- behind a directory that names something, no component is the first one
    obtain ⟨head, tail, some⟩ := List.exists_cons_of_ne_nil (mt components_eq_nil_iff.mp none)
    obtain ⟨first, others, parts, -, spelled⟩ := p.exists_first
    apply components_join_of_spelled
    apply spelled
    rw [parts, some] at found
    cases first with
    | none =>
      have whole : others = head :: (tail ++ part :: rest) := found
      rw [whole]
      simp
    | some lead =>
      have whole : others = tail ++ part :: rest := (List.cons.inj found).2
      rw [whole]
      simp

theorem isBeneath_iff_exists : p.isBeneath dir = true ↔
    ∃ part rest, p.components = dir.components ++ part :: rest := by
  rw [isBeneath_iff]
  constructor
  · rintro ⟨⟨rest, found⟩, apart⟩
    cases rest with
    | nil => exact absurd (found.symm.trans (List.append_nil _)) apart
    | cons part rest => exact ⟨part, rest, found.symm⟩
  · rintro ⟨part, rest, found⟩
    refine ⟨⟨part :: rest, found.symm⟩, fun same => ?_⟩
    rw [Same, found] at same
    simp at same

/-- The path is one component further down than the directory. -/
def isDirectlyIn (p dir : Path) : Bool :=
  p.startsWith dir && p.components.length == dir.components.length + 1

theorem isDirectlyIn_iff : p.isDirectlyIn dir = true ↔
    ∃ part, p.components = dir.components ++ [part] := by
  rw [isDirectlyIn, Bool.and_eq_true, startsWith_iff, beq_iff_eq]
  constructor
  · rintro ⟨⟨rest, found⟩, long⟩
    rw [← found, List.length_append, Nat.add_left_cancel_iff, List.length_eq_one_iff] at long
    obtain ⟨part, rfl⟩ := long
    exact ⟨part, found.symm⟩
  · rintro ⟨part, found⟩
    exact ⟨⟨[part], found.symm⟩, by rw [found]; simp⟩

end Path

namespace MemoryFiles

open FileTree (admits)

variable {files changed : Table Path String} {file dir p x : Path} {endings : List String}

/-- One file is written or removed. -/
inductive Touches (files : Table Path String) (file : Path) : Table Path String → Prop where
  | written (text : String) : Touches files file (files.insert file text)
  | removed : Touches files file (files.erase file)

/-- A path that leads through a directory down from another one. -/
def Passes (dir : Path) (part : Component) (p : Path) : Prop :=
  ∃ next rest, p.components = dir.components ++ part :: next :: rest

theorem firstStep?_eq_some_iff (within : p.startsWith dir = true) : firstStep? dir p = some x ↔
    ∃ part, Passes dir part p ∧ x = dir.join (.ofComponents [part]) := by
  obtain ⟨rest, found⟩ := Path.startsWith_iff.mp within
  have further : p.components.drop dir.components.length = rest := by
    rw [← found, List.drop_left]
  unfold firstStep? Passes
  rw [further, ← found]
  simp only [List.append_cancel_left_eq]
  rcases rest with _ | ⟨part, _ | ⟨next, rest⟩⟩
  · simp
  · simp
  · simp [eq_comm]

theorem startsWith_of_passes {part : Component} (passes : Passes dir part p) :
    p.startsWith dir = true := by
  obtain ⟨next, rest, found⟩ := passes
  exact Path.startsWith_iff.mpr ⟨_, found.symm⟩

theorem mem_steps_iff : x ∈ (files.keys.filter (·.startsWith dir)).filterMap (firstStep? dir) ↔
    ∃ p ∈ files.keys, ∃ part, Passes dir part p ∧ x = dir.join (.ofComponents [part]) := by
  rw [List.mem_filterMap]
  constructor
  · rintro ⟨p, inside, step⟩
    obtain ⟨key, within⟩ := List.mem_filter.mp inside
    exact ⟨p, key, (firstStep?_eq_some_iff within).mp step⟩
  · rintro ⟨p, key, part, passes, rfl⟩
    have within := startsWith_of_passes passes
    refine ⟨p, List.mem_filter.mpr ⟨key, within⟩, ?_⟩
    exact (firstStep?_eq_some_iff within).mpr ⟨part, passes, rfl⟩

/-- The directories beneath one are those that a file's path leads through. -/
theorem mem_directories_iff : x ∈ directories files dir ↔
    ∃ p ∈ files.keys, ∃ part, Passes dir part p ∧ x = dir.join (.ofComponents [part]) := by
  rw [← mem_steps_iff]
  apply Table.mem_keys_ofList
  -- a directory is always spelled in the same way from the one above it
  intro x one y other same
  obtain ⟨p, -, part, ⟨_, _, found⟩, rfl⟩ := mem_steps_iff.mp one
  obtain ⟨q, -, also, ⟨_, _, find⟩, rfl⟩ := mem_steps_iff.mp other
  have equal := Path.rank_eq_iff_same.mp same
  rw [Path.Same, Path.components_join_lone found, Path.components_join_lone find] at equal
  cases List.append_cancel_left equal
  rfl

theorem isDirectory_iff : ((treeOf files).isDirectory dir).value = true ↔
    ∃ p ∈ files.keys, p.isBeneath dir = true := List.any_eq_true

/-- A directory is listed just when it is there and lies one component further down. -/
theorem mem_directories_iff_isDirectory : x ∈ directories files dir ↔
    ((treeOf files).isDirectory x).value = true ∧
      ∃ part, x = dir.join (.ofComponents [part]) ∧ x.components = dir.components ++ [part] := by
  rw [mem_directories_iff, isDirectory_iff]
  constructor
  · rintro ⟨p, key, part, ⟨next, rest, found⟩, rfl⟩
    have parts := Path.components_join_lone found
    refine ⟨⟨p, key, Path.isBeneath_iff_exists.mpr ⟨next, rest, ?_⟩⟩, part, rfl, parts⟩
    rw [parts, found, List.append_cons]
  · rintro ⟨⟨p, key, beneath⟩, part, rfl, parts⟩
    obtain ⟨next, rest, found⟩ := Path.isBeneath_iff_exists.mp beneath
    rw [parts, ← List.append_cons] at found
    exact ⟨p, key, part, ⟨next, rest, found⟩, rfl⟩

theorem pairwise_directories (files : Table Path String) (dir : Path) :
    (directories files dir).Pairwise fun p q => p.before q = true :=
  Table.pairwise_keys _

/-- The files of a directory itself. -/
def direct (files : Table Path String) (dir : Path) (endings : List String) : List Path :=
  files.keys.filter fun p => p.isDirectlyIn dir && admits endings p

/-- The files of a directory itself, and then those of its directories one by one. -/
def parted (files : Table Path String) (dir : Path) (endings : List String) : List Path :=
  direct files dir endings ++
    (directories files dir).flatMap fun x => (beneath files x).filter (admits endings)

theorem mem_parted_iff : p ∈ parted files dir endings ↔
    p ∈ (beneath files dir).filter (admits endings) := by
  unfold parted direct beneath
  simp only [List.mem_append, List.mem_flatMap, List.mem_filter, Bool.and_eq_true]
  constructor
  · rintro (⟨key, here, ends⟩ | ⟨x, inside, ⟨key, beneath⟩, ends⟩)
    · obtain ⟨part, found⟩ := Path.isDirectlyIn_iff.mp here
      exact ⟨⟨key, Path.isBeneath_iff_exists.mpr ⟨part, [], found⟩⟩, ends⟩
    · obtain ⟨-, part, -, parts⟩ := mem_directories_iff_isDirectory.mp inside
      have within : x.startsWith dir = true := Path.startsWith_iff.mpr ⟨[part], parts.symm⟩
      exact ⟨⟨key, Path.isBeneath_of_startsWith beneath within⟩, ends⟩
  · rintro ⟨⟨key, beneath⟩, ends⟩
    obtain ⟨part, rest, found⟩ := Path.isBeneath_iff_exists.mp beneath
    cases rest with
    | nil => exact .inl ⟨key, Path.isDirectlyIn_iff.mpr ⟨part, found⟩, ends⟩
    | cons next rest =>
      have parts := Path.components_join_lone found
      refine .inr ⟨dir.join (.ofComponents [part]), ?_, ⟨key, ?_⟩, ends⟩
      · exact mem_directories_iff.mpr ⟨p, key, part, ⟨next, rest, found⟩, rfl⟩
      · refine Path.isBeneath_iff_exists.mpr ⟨next, rest, ?_⟩
        rw [parts, found, List.append_cons]

theorem nodup_of_pairwise {paths : List Path}
    (ascending : paths.Pairwise fun p q => p.before q = true) : paths.Nodup := by
  refine ascending.imp fun {p q} before equal => ?_
  exact Path.not_same_of_before before (equal ▸ .refl p)

/-- Beneath two directories of one there is no file in common. -/
theorem same_of_beneath {y : Path} (one : x ∈ directories files dir)
    (other : y ∈ directories files dir) (inX : p.isBeneath x = true)
    (inY : p.isBeneath y = true) : x.Same y := by
  obtain ⟨-, part, -, parts⟩ := mem_directories_iff_isDirectory.mp one
  obtain ⟨-, also, -, others⟩ := mem_directories_iff_isDirectory.mp other
  obtain ⟨_, _, found⟩ := Path.isBeneath_iff_exists.mp inX
  obtain ⟨_, _, find⟩ := Path.isBeneath_iff_exists.mp inY
  rw [found, parts, others, List.append_assoc, List.append_assoc] at find
  have equal := (List.cons.inj (List.append_cancel_left find)).1
  rw [Path.Same, parts, others, equal]

theorem not_beneath_of_isDirectlyIn (inside : x ∈ directories files dir)
    (here : p.isDirectlyIn dir = true) : ¬ p.isBeneath x = true := by
  intro beneath
  obtain ⟨-, part, -, parts⟩ := mem_directories_iff_isDirectory.mp inside
  obtain ⟨other, own⟩ := Path.isDirectlyIn_iff.mp here
  obtain ⟨_, _, found⟩ := Path.isBeneath_iff_exists.mp beneath
  rw [own, parts, List.append_assoc] at found
  cases List.append_cancel_left found

theorem nodup_parted (files : Table Path String) (dir : Path) (endings : List String) :
    (parted files dir endings).Nodup := by
  have keys := nodup_of_pairwise files.pairwise_keys
  have group (x : Path) : ((beneath files x).filter (admits endings)).Nodup :=
    (keys.filter _).filter _
  have inside {p x : Path} (member : p ∈ (beneath files x).filter (admits endings)) :
      p.isBeneath x = true := (List.mem_filter.mp (List.mem_filter.mp member).1).2
  apply List.Nodup.append (keys.filter _)
  · refine List.nodup_flatMap.mpr ⟨fun x _ => group x, ?_⟩
    refine (pairwise_directories files dir).imp_of_mem fun {x y} one other before => ?_
    intro p ours theirs
    exact Path.not_same_of_before before (same_of_beneath one other (inside ours) (inside theirs))
  · intro p own deeper
    obtain ⟨x, directory, member⟩ := List.mem_flatMap.mp deeper
    obtain ⟨here, -⟩ := Bool.and_eq_true_iff.mp (List.mem_filter.mp own).2
    exact not_beneath_of_isDirectlyIn directory here (inside member)

theorem perm_parted (files : Table Path String) (dir : Path) (endings : List String) :
    ((beneath files dir).filter (admits endings)).Perm (parted files dir endings) := by
  have keys := nodup_of_pairwise files.pairwise_keys
  apply (List.perm_ext_iff_of_nodup ((keys.filter _).filter _) (nodup_parted ..)).mpr
  exact fun p => mem_parted_iff.symm

/-! What lies outside -/

theorem Touches.beneath_eq (touches : Touches files file changed)
    (outside : file.isBeneath dir = false) : beneath changed dir = beneath files dir := by
  cases touches with
  | written text => exact Table.filter_keys_insert (fun p : Path => p.isBeneath dir) outside text
  | removed =>
    apply Table.filter_keys_erase fun p : Path => p.isBeneath dir
    intro l same
    rw [(Path.rank_eq_iff_same.mp same).isBeneath_eq, outside]

/-- Only what lies beneath a directory decides which directories there are in it. -/
theorem filterMap_firstStep?_eq (files : Table Path String) (dir : Path) :
    (files.keys.filter (·.startsWith dir)).filterMap (firstStep? dir) =
      (beneath files dir).filterMap (firstStep? dir) := by
  rw [beneath, List.filterMap_filter, List.filterMap_filter]
  apply List.filterMap_congr
  intro p _
  cases within : p.startsWith dir with
  | false => simp [Path.isBeneath, within]
  | true =>
    by_cases same : p.Same dir
    · have itself : firstStep? dir p = none := by
        unfold firstStep?
        rw [show p.components = dir.components from same, List.drop_length]
      simp [itself]
    · simp [Path.isBeneath, within, same]

theorem directories_congr (same : beneath changed dir = beneath files dir) :
    directories changed dir = directories files dir := by
  unfold directories
  simp only [filterMap_firstStep?_eq, same]

theorem isDirectory_iff_beneath :
    ((treeOf files).isDirectory dir).value = true ↔ beneath files dir ≠ [] := by
  rw [isDirectory_iff, beneath, ne_eq, List.filter_eq_nil_iff]
  simp

/-- What can be seen of a directory: its files by their endings, its directories, and whether it is
there. -/
structure SeenAlike (files changed : Table Path String) (dir : Path) : Prop where
  listed : ∀ endings, ((treeOf changed).files dir endings).value =
    ((treeOf files).files dir endings).value
  subdirectories : ((treeOf changed).subdirectories dir).value =
    ((treeOf files).subdirectories dir).value
  isDirectory : ((treeOf changed).isDirectory dir).value =
    ((treeOf files).isDirectory dir).value

theorem SeenAlike.of_beneath (same : beneath changed dir = beneath files dir) :
    SeenAlike files changed dir where
  listed endings := congrArg (List.filter (admits endings)) same
  subdirectories := directories_congr same
  isDirectory := by rw [Bool.eq_iff_iff, isDirectory_iff_beneath, isDirectory_iff_beneath, same]

/-- A directory's files are those that lie in it directly and those of its directories, each of them
once. The directories are the ones that are there, a directory is there while it has files, and
nothing of this depends on what lies outside of it. -/
theorem views_agree (files : Table Path String) (dir : Path) :
    let tree := treeOf files
    let below := (tree.subdirectories dir).value
    (∀ endings,
      let listed := fun place => (tree.files place endings).value
      let parts := files.keys.filter (fun p => p.isDirectlyIn dir && admits endings p) ++
        below.flatMap listed
      (listed dir).Pairwise (fun p q => p.before q = true) ∧ (listed dir).Perm parts ∧
        parts.Pairwise fun p q => ¬ p.Same q) ∧
    below.Pairwise (fun p q => p.before q = true) ∧
    (∀ x ∈ below, (tree.isDirectory x).value = true) ∧
    (∀ word, Component.Spelled (.name word) →
      (dir.join ⟨word⟩ ∈ below ↔ (tree.isDirectory (dir.join ⟨word⟩)).value = true)) ∧
    ((tree.isDirectory dir).value = true ↔ (tree.files dir []).value ≠ []) ∧
    ∀ file changed, Touches files file changed → file.isBeneath dir = false →
      ∀ place, place.startsWith dir = true → SeenAlike files changed place := by
  intro tree below
  refine ⟨fun endings => ?_, pairwise_directories files dir, fun x inside => ?_,
    fun word spelled => ?_, ?_, ?_⟩
  · intro listed parts
    have ascending : (listed dir).Pairwise fun p q => p.before q = true :=
      (files.pairwise_keys.filter _).filter _
    have perm : (listed dir).Perm parts := perm_parted files dir endings
    refine ⟨ascending, perm, ?_⟩
    have apart := ascending.imp Path.not_same_of_before
    exact (perm.pairwise_iff fun {p q} apart same => apart same.symm).mp apart
  · exact (mem_directories_iff_isDirectory.mp inside).1
  · have lone : Path.ofComponents [.name word] = ⟨word⟩ := by
      simp [Path.ofComponents, joined, Component.text]
    constructor
    · exact fun inside => (mem_directories_iff_isDirectory.mp inside).1
    · intro there
      have parts := Path.components_join_of_spelled dir spelled
      rw [lone] at parts
      exact mem_directories_iff_isDirectory.mpr ⟨there, .name word, by rw [lone], parts⟩
  · have all : (tree.files dir []).value = beneath files dir :=
      List.filter_eq_self.mpr fun _ _ => rfl
    rw [all]
    exact isDirectory_iff_beneath
  · intro file changed touches outside place within
    apply SeenAlike.of_beneath
    apply touches.beneath_eq
    cases beneath : file.isBeneath place with
    | false => rfl
    | true => exact absurd (Path.isBeneath_of_startsWith beneath within) (by simp [outside])

namespace Sample

/-- A file that is the front of another one's path, and one beside it. -/
def stacked : Table Path String :=
  .ofList [(.ofString "/p/a", ""), (.ofString "/p/a/b.ts", ""), (.ofString "/p/c.ts", "")]

end Sample

/-- Nothing is seen in a directory of a file that is written beside it. -/
theorem views_agree_beside :
    let dir := Path.ofString "/p"
    let changed := Sample.stacked.insert (.ofString "/q/d.ts") ""
    let listed := fun place => ((treeOf Sample.stacked).files place [".ts"]).value
    listed dir = [.ofString "/p/a/b.ts", .ofString "/p/c.ts"] ∧
    (listed dir).Perm ([.ofString "/p/c.ts"] ++ [.ofString "/p/a"].flatMap listed) ∧
    ((treeOf Sample.stacked).isDirectory (.ofString "/p/a")).value = true ∧
    SeenAlike Sample.stacked changed dir := by
  intro dir changed listed
  obtain ⟨lists, -, there, named, -, outside⟩ := views_agree Sample.stacked dir
  have inside : Path.ofString "/p/a" ∈ ((treeOf Sample.stacked).subdirectories dir).value := by
    decide
  have spelled : Component.Spelled (.name ['a']) := ⟨rfl, by decide⟩
  refine ⟨by decide, (lists [".ts"]).2.1, (named ['a'] spelled).mp inside, ?_⟩
  exact outside _ changed (.written "") (by decide) dir (by decide)

end MemoryFiles
end ComponentProjects
