import ComponentProjects.FileTree.Memory
import ComponentProjects.Project.Chain
import ComponentProjects.Proofs.Noted
import ComponentProjects.Proofs.Path.Sameness
import ComponentProjects.Proofs.Table.Reading

/-! Chains of project files, followed from each file to the one that it builds on. No file is read
twice, so a chain over finitely many files comes to a stop before it runs out of them, and the
stop that it comes to says what the chain amounts to. -/
namespace ComponentProjects.Chain

/-- The project file that stands under a path. -/
def read? (tree : FileTree) (path : Path) : Option ProjectFile :=
  (tree.contents? path).value.bind (ProjectFile.ofText? path)

/-- The files read from a start on, each for the first time, and the path that the last of them
leads to. -/
inductive Trail (tree : FileTree) (start : Path) : List ProjectFile → Path → Prop where
  | start : Trail tree start [] start
  | onward {read : List ProjectFile} {last next : Path} {file : ProjectFile} {name : String}
      (trail : Trail tree start read last) (fresh : ∀ f ∈ read, ¬ f.path.Same last)
      (parsed : read? tree last = some file) (builds : file.base? = some name)
      (leads : (base? tree name file.directory).value = some next) :
    Trail tree start (read ++ [file]) next

/-- Why a chain that has read some files goes no further than a path: the path was visited before,
nothing can be read there, what is read is malformed, it builds on a file that is not there, or it
builds on none. -/
inductive Stop (tree : FileTree) (read : List ProjectFile) (last : Path) :
    Except ChainFault ProjectFile → Prop where
  | circular (visited : ∃ f ∈ read, f.path.Same last) :
    Stop tree read last (.error (.circular last))
  | unreadable (fresh : ∀ f ∈ read, ¬ f.path.Same last)
      (missing : (tree.contents? last).value = none) :
    Stop tree read last (.error (.unreadable last))
  | invalid (fresh : ∀ f ∈ read, ¬ f.path.Same last) (text : String)
      (there : (tree.contents? last).value = some text)
      (malformed : ProjectFile.ofText? last text = none) :
    Stop tree read last (.error (.invalid last))
  | astray (fresh : ∀ f ∈ read, ¬ f.path.Same last) {file : ProjectFile} {name : String}
      (parsed : read? tree last = some file) (builds : file.base? = some name)
      (lost : (base? tree name file.directory).value = none) :
    Stop tree read last (.error (.unreadable (file.directory.join (.ofString name))))
  | whole (fresh : ∀ f ∈ read, ¬ f.path.Same last) {file : ProjectFile}
      (parsed : read? tree last = some file) (builds : file.base? = none) :
    Stop tree read last (.ok file)

variable {tree : FileTree} {files : Table Path String} {start last next : Path}
  {read : List ProjectFile} {file : ProjectFile} {name : String}
  {result : Except ChainFault ProjectFile}

theorem path_of_ofText? {path : Path} {text : String}
    (parsed : ProjectFile.ofText? path text = some file) : file.path = path := by
  simp only [ProjectFile.ofText?, Option.bind_eq_bind, Option.bind_eq_some_iff] at parsed
  obtain ⟨_, -, _, -, parsed⟩ := parsed
  split at parsed
  · split at parsed
    all_goals
      simp only [Option.bind_eq_some_iff, Option.pure_def, Option.some.injEq] at parsed
      obtain ⟨_, -, _, -, _, -, _, -, _, -, rfl⟩ := parsed
      rfl
  · cases parsed

theorem path_of_read? {path : Path} (parsed : read? tree path = some file) : file.path = path := by
  obtain ⟨text, -, parsed⟩ := Option.bind_eq_some_iff.mp parsed
  exact path_of_ofText? parsed

/-- The components of the paths read, the latest first. -/
def visited (read : List ProjectFile) : List (List Component) :=
  (read.map (·.path.components)).reverse

theorem mem_visited_iff : last.components ∈ visited read ↔ ∃ f ∈ read, f.path.Same last := by
  simp only [visited, List.mem_reverse, List.mem_map]
  rfl

theorem visited_append (parsed : read? tree last = some file) :
    visited (read ++ [file]) = last.components :: visited read := by
  simp [visited, path_of_read? parsed]

theorem not_seen (fresh : ∀ f ∈ read, ¬ f.path.Same last) : ¬ ∃ f ∈ read, f.path.Same last := by
  rintro ⟨f, member, same⟩
  exact fresh f member same

theorem not_mem_visited (fresh : ∀ f ∈ read, ¬ f.path.Same last) :
    last.components ∉ visited read := not_seen fresh ∘ mem_visited_iff.mp

/-! One step -/

theorem follow_onward (fresh : ∀ f ∈ read, ¬ f.path.Same last)
    (parsed : read? tree last = some file) (builds : file.base? = some name)
    (leads : (base? tree name file.directory).value = some next) (more : Nat) :
    let rest := follow tree more (visited (read ++ [file])) next
    follow tree (more + 1) (visited read) last = ⟨rest.value.map (file :: ·),
      (tree.contents? last).notes ++ ((base? tree name file.directory).notes ++ rest.notes)⟩ := by
  rw [visited_append parsed]
  intro rest
  obtain ⟨text, there, parsed⟩ := Option.bind_eq_some_iff.mp parsed
  rw [follow, if_neg (not_mem_visited fresh)]
  apply congrArg₂ Noted.mk
  · simp only [Noted.value_bind, there, parsed, builds, leads]
    cases rest.value <;> rfl
  · simp only [Noted.notes_bind, there, parsed, builds, leads]
    change _ ++ (_ ++ (rest.notes ++ _)) = _
    split <;> simp

/-- Where a chain stops, following it further comes to the stop's result. -/
theorem follow_stop (stop : Stop tree read last result) (more : Nat) :
    (follow tree (more + 1) (visited read) last).value = result.map ([·]) := by
  cases stop with
  | circular visited =>
    rw [follow, if_pos (mem_visited_iff.mpr visited)]
    rfl
  | unreadable fresh missing =>
    simp only [follow, if_neg (not_mem_visited fresh), Noted.value_bind, missing]
    rfl
  | invalid fresh text there malformed =>
    simp only [follow, if_neg (not_mem_visited fresh), Noted.value_bind, there, malformed]
    rfl
  | astray fresh parsed builds lost =>
    obtain ⟨text, there, parsed⟩ := Option.bind_eq_some_iff.mp parsed
    simp only [follow, if_neg (not_mem_visited fresh), Noted.value_bind, there, parsed, builds,
      lost]
    rfl
  | whole fresh parsed builds =>
    obtain ⟨text, there, parsed⟩ := Option.bind_eq_some_iff.mp parsed
    simp only [follow, if_neg (not_mem_visited fresh), Noted.value_bind, there, parsed, builds]
    rfl

/-! Whole trails -/

theorem length_onward (read : List ProjectFile) (file : ProjectFile) (more : Nat) :
    (read ++ [file]).length + more = read.length + (more + 1) := by
  rw [List.length_append, List.length_singleton, Nat.add_assoc, Nat.add_comm 1]

theorem Trail.value_follow (trail : Trail tree start read last) (more : Nat) :
    (follow tree (read.length + more) [] start).value =
      (follow tree more (visited read) last).value.map (read ++ ·) := by
  -- a file that is read has taken one step from the number the chain is followed for
  induction trail generalizing more with
  | start =>
    rw [List.length_nil, Nat.zero_add, show visited [] = [] from rfl]
    cases (follow tree more [] start).value <;> rfl
  | @onward read last next file name _ fresh parsed builds leads ih =>
    rw [length_onward, ih, follow_onward fresh parsed builds leads]
    cases (follow tree more (visited (read ++ [file])) next).value with
    | error fault => rfl
    | ok rest => simp [Except.map]

theorem Trail.parsed (trail : Trail tree start read last) :
    ∀ f ∈ read, read? tree f.path = some f := by
  induction trail with
  | start => exact fun f member => by cases member
  | onward _ _ parsed _ _ ih =>
    intro f member
    rcases List.mem_append.mp member with earlier | latest
    · exact ih f earlier
    · cases List.mem_singleton.mp latest
      rw [path_of_read? parsed]
      exact parsed

theorem Trail.apart (trail : Trail tree start read last) :
    (read.map (·.path)).Pairwise fun p q => rank p ≠ rank q := by
  induction trail with
  | start => exact .nil
  | @onward read last _ file _ _ fresh parsed _ _ ih =>
    rw [List.map_append, List.pairwise_append]
    refine ⟨ih, List.pairwise_singleton _ _, ?_⟩
    intro p earlier q latest same
    obtain ⟨f, member, rfl⟩ := List.mem_map.mp earlier
    have own : q = last := (List.mem_singleton.mp latest).trans (path_of_read? parsed)
    rw [own] at same
    exact fresh f member (Path.rank_eq_iff_same.mp same)

theorem Trail.length_le_size (trail : Trail (MemoryFiles.treeOf files) start read last) :
    read.length ≤ files.size := by
  have fits := files.length_le_size trail.apart ?_
  · rwa [List.length_map] at fits
  · intro p member
    obtain ⟨f, among, rfl⟩ := List.mem_map.mp member
    obtain ⟨text, there, -⟩ := Option.bind_eq_some_iff.mp (trail.parsed f among)
    exact Option.isSome_of_eq_some there

theorem Trail.stop_or_onward (trail : Trail tree start read last) :
    (∃ result, Stop tree read last result) ∨
      ∃ file next, Trail tree start (read ++ [file]) next := by
  by_cases seen : ∃ f ∈ read, f.path.Same last
  · exact .inl ⟨_, .circular seen⟩
  have fresh : ∀ f ∈ read, ¬ f.path.Same last := fun f member same => seen ⟨f, member, same⟩
  cases there : (tree.contents? last).value with
  | none => exact .inl ⟨_, .unreadable fresh there⟩
  | some text =>
    cases malformed : ProjectFile.ofText? last text with
    | none => exact .inl ⟨_, .invalid fresh text there malformed⟩
    | some file =>
      have parsed : read? tree last = some file :=
        Option.bind_eq_some_iff.mpr ⟨text, there, malformed⟩
      cases builds : file.base? with
      | none => exact .inl ⟨_, .whole fresh parsed builds⟩
      | some name =>
        cases leads : (base? tree name file.directory).value with
        | none => exact .inl ⟨_, .astray fresh parsed builds leads⟩
        | some next => exact .inr ⟨file, next, .onward trail fresh parsed builds leads⟩

/-- A trail over finitely many files goes on only until they are all read. -/
theorem Trail.exists_stop (trail : Trail (MemoryFiles.treeOf files) start read last) :
    ∃ read last result, Trail (MemoryFiles.treeOf files) start read last ∧
      Stop (MemoryFiles.treeOf files) read last result := by
  -- every step onward reads one of the files that are left
  generalize left : files.size - read.length = remaining
  induction remaining generalizing read last with
  | zero =>
    rcases trail.stop_or_onward with ⟨result, stop⟩ | ⟨file, next, further⟩
    · exact ⟨read, last, result, trail, stop⟩
    · have fits := further.length_le_size
      rw [List.length_append, List.length_singleton] at fits
      omega
  | succ remaining ih =>
    rcases trail.stop_or_onward with ⟨result, stop⟩ | ⟨file, next, further⟩
    · exact ⟨read, last, result, trail, stop⟩
    · refine ih further ?_
      rw [List.length_append, List.length_singleton]
      omega

/-- A trail never uses up what a chain is followed for. -/
theorem Trail.fuel (trail : Trail (MemoryFiles.treeOf files) start read last) :
    (MemoryFiles.treeOf files).size + 1 = read.length + (files.size - read.length + 1) := by
  have fits := trail.length_le_size
  simp only [MemoryFiles.treeOf]
  omega

/-- The chain that a trail and its stop make out. -/
theorem value_files (trail : Trail (MemoryFiles.treeOf files) start read last)
    (stop : Stop (MemoryFiles.treeOf files) read last result) :
    (Chain.files (MemoryFiles.treeOf files) start).value = result.map (read ++ [·]) := by
  rw [Chain.files, trail.fuel, trail.value_follow, follow_stop stop]
  cases result <;> rfl

theorem Stop.circular_iff (stop : Stop tree read last result) :
    (∃ path, result = .error (.circular path)) ↔ ∃ f ∈ read, f.path.Same last := by
  cases stop with
  | circular visited => exact ⟨fun _ => visited, fun _ => ⟨last, rfl⟩⟩
  | unreadable fresh | invalid fresh | astray fresh | whole fresh =>
    refine ⟨?_, fun visited => absurd visited (not_seen fresh)⟩
    rintro ⟨path, same⟩
    cases same

/-! What is read -/

theorem only_named? (files : Table Path String) (path : Path) :
    (named? (MemoryFiles.treeOf files) path).Only fun note => ∃ p, note = .asked (.isFile p) := by
  refine Noted.only_firstSome (fun p note member => ?_) _
  exact ⟨p, List.mem_singleton.mp member⟩

theorem only_base? (files : Table Path String) (name : String) (dir : Path) :
    (base? (MemoryFiles.treeOf files) name dir).Only
      fun note => ∃ p, note = .asked (.isFile p) := by
  unfold base?
  split
  · exact only_named? files _
  · refine Noted.only_firstUpward (fun dir => ?_) dir
    refine (only_named? files _).bind ?_
    split
    · exact Noted.only_pure _
    · exact only_named? files _

theorem Trail.readings_follow (trail : Trail (MemoryFiles.treeOf files) start read last)
    (more : Nat) :
    (follow (MemoryFiles.treeOf files) (read.length + more) [] start).readings =
      read.map (·.path) ++
        (follow (MemoryFiles.treeOf files) more (visited read) last).readings := by
  induction trail generalizing more with
  | start =>
    rw [List.length_nil, Nat.zero_add]
    rfl
  | @onward read last next file name _ fresh parsed builds leads ih =>
    have unread := Noted.readings_of_only (only_base? files name file.directory)
    have here : [last] = [file.path] := by rw [path_of_read? parsed]
    rw [length_onward, ih, follow_onward fresh parsed builds leads, List.map_append,
      List.append_assoc, List.map_singleton, ← here]
    simp only [Noted.readings, List.filterMap_append] at unread ⊢
    rw [unread]
    rfl

theorem Stop.readings_follow (stop : Stop (MemoryFiles.treeOf files) read last result)
    (more : Nat) :
    (follow (MemoryFiles.treeOf files) (more + 1) (visited read) last).readings =
      if ∃ f ∈ read, f.path.Same last then [] else [last] := by
  cases stop with
  | circular seen =>
    rw [follow, if_pos (mem_visited_iff.mpr seen), if_pos seen]
    rfl
  | unreadable fresh missing =>
    rw [if_neg (not_seen fresh)]
    simp only [follow, if_neg (not_mem_visited fresh), Noted.readings, Noted.notes_bind, missing]
    rfl
  | invalid fresh text there malformed =>
    rw [if_neg (not_seen fresh)]
    simp only [follow, if_neg (not_mem_visited fresh), Noted.readings, Noted.notes_bind, there,
      malformed]
    rfl
  | @astray fresh file name parsed builds lost =>
    have unread := Noted.readings_of_only (only_base? files name file.directory)
    obtain ⟨text, there, parsed⟩ := Option.bind_eq_some_iff.mp parsed
    rw [if_neg (not_seen fresh)]
    simp only [follow, if_neg (not_mem_visited fresh), Noted.readings, Noted.notes_bind, there,
      parsed, builds, lost, List.filterMap_append] at unread ⊢
    rw [unread]
    rfl
  | whole fresh parsed builds =>
    obtain ⟨text, there, parsed⟩ := Option.bind_eq_some_iff.mp parsed
    rw [if_neg (not_seen fresh)]
    simp only [follow, if_neg (not_mem_visited fresh), Noted.readings, Noted.notes_bind, there,
      parsed, builds]
    rfl

/-- A chain over files in memory reads the files of its trail, each once and in their order. -/
theorem readings_files (trail : Trail (MemoryFiles.treeOf files) start read last)
    (stop : Stop (MemoryFiles.treeOf files) read last result) :
    (Chain.files (MemoryFiles.treeOf files) start).readings =
      read.map (·.path) ++ if ∃ f ∈ read, f.path.Same last then [] else [last] := by
  rw [Chain.files, trail.fuel, trail.readings_follow, stop.readings_follow]

end ComponentProjects.Chain
