import ComponentProjects.Proofs.Path.Converted
import ComponentProjects.Proofs.Session.Answers

/-! The two spellings of a component. A converted path is answered for the component behind it: it
is there just while it can be read, and it reads as the component's snapshot. Further questions may
load other files, but they change nothing that was answered. -/
namespace ComponentProjects

/-- A question about one file: its snapshot with its version and dialect, whether it is there and
how it reads. -/
inductive Query.About (path : Path) : Query → Prop where
  | version : About path (.version path)
  | snapshot : About path (.snapshot path)
  | dialect : About path (.dialect path)
  | isFile : About path (.isFile path)
  | contents : About path (.contents path)

theorem Query.isConverted_of_asked {query : Query} {p : Path} (asked : p ∈ query.asked) :
    p.isConverted = false := by
  have real (path : Path) (member : p ∈ [path.real]) : p.isConverted = false := by
    rw [List.mem_singleton.mp member]
    exact path.isConverted_real
  cases query with
  | version path | snapshot path | dialect path => exact real path asked
  | contents path =>
    simp only [Query.asked] at asked
    split at asked
    · exact real path asked
    · cases asked
  | _ => cases asked

theorem Answer.isConverted_of_told {answer : Answer} {p : Path} (told : p ∈ answer.told) :
    p.isConverted = false := by
  cases answer with
  | modules entries => exact Path.isConverted_of_component (List.mem_filter.mp told).2
  | _ => cases told

namespace Host

variable {host : Host} {files : Table Path String} {tracked later : Snapshots} {p : Path}

def present (files : Table Path String) (tracked : Snapshots) (p : Path) : Bool :=
  tracked.contains p || files.contains p

theorem isSome_fromTree?_files (host : Host) (plain : p.isConverted = false) :
    (host.fromTree? (MemoryFiles.treeOf files) p).isSome = files.contains p :=
  isSome_fromTree? plain

theorem isSome_snapshot? (host : Host) (p : Path) :
    (host.snapshot? (MemoryFiles.treeOf files) p tracked).value.1.isSome =
      present files tracked p.real := by
  rw [snapshot?_value, present, ← isSome_fromTree?_files host p.isConverted_real, Table.contains]
  cases tracked.get? p.real <;>
    cases host.fromTree? (MemoryFiles.treeOf files) p.real <;> rfl

theorem isFile_value (p : Path) : (host.isFile (MemoryFiles.treeOf files) p tracked).value =
    if p.isConverted then present files tracked p.real else files.contains p := by
  unfold isFile present
  cases converted : p.isConverted with
  | true =>
    cases tracked.contains p.real <;> rfl
  | false =>
    simp only [Bool.false_and, Bool.false_eq_true, if_false]
    exact congrArg files.contains (Path.real_eq_self converted)

theorem contents?_of_converted (converted : p.isConverted = true) :
    (host.contents? (MemoryFiles.treeOf files) p tracked).value.1 =
      (host.snapshot? (MemoryFiles.treeOf files) p tracked).value.1.map Snapshot.text := by
  rw [contents?, if_pos converted]
  rfl

theorem contents?_of_plain (plain : p.isConverted = false) :
    (host.contents? (MemoryFiles.treeOf files) p tracked).value.1 = files.get? p := by
  simp only [contents?, plain, view, FileTree.templated]
  rfl

/-- What is there can be read, and nothing else can. -/
theorem isSome_contents? (p : Path) :
    (host.contents? (MemoryFiles.treeOf files) p tracked).value.1.isSome =
      (host.isFile (MemoryFiles.treeOf files) p tracked).value := by
  rw [isFile_value]
  cases converted : p.isConverted with
  | true => rw [contents?_of_converted converted, Option.isSome_map, isSome_snapshot?, if_pos rfl]
  | false => rw [contents?_of_plain converted]; rfl

theorem snapshot?_real (host : Host) (tree : FileTree) (p : Path) (tracked : Snapshots) :
    host.snapshot? tree p.real tracked = host.snapshot? tree p tracked := by
  simp only [snapshot?, Path.real_real]

theorem dialect_real {tree : FileTree} {u : Snapshot}
    (served : (host.snapshot? tree p tracked).value.1 = some u) :
    host.dialect tree p.real tracked = host.dialect tree p tracked := by
  unfold dialect
  rw [snapshot?_real]
  generalize host.snapshot? tree p tracked = work at served ⊢
  obtain ⟨⟨s?, after⟩, notes⟩ := work
  cases served
  rfl

/-- What was read in between was read for files of the tree. -/
def Gains (host : Host) (tree : FileTree) (before after : Snapshots) : Prop :=
  ∃ wanted, (∀ q ∈ wanted, q.isConverted = false) ∧ host.Loads tree wanted before after

theorem gains_askAll (tree : FileTree) (held : Held) (queries : List Query) :
    host.Gains tree held.tracked (host.askAll tree held queries).value.2.tracked := by
  refine ⟨_, fun q wanted => ?_, askAll_loads held queries⟩
  rcases List.mem_append.mp wanted with asked | told
  · obtain ⟨query, -, own⟩ := List.mem_flatMap.mp asked
    exact Query.isConverted_of_asked own
  · obtain ⟨answer, -, own⟩ := List.mem_flatMap.mp told
    exact Answer.isConverted_of_told own

theorem Gains.present_eq (gains : host.Gains (MemoryFiles.treeOf files) tracked later)
    (p : Path) : present files later p = present files tracked p := by
  obtain ⟨wanted, plains, loads⟩ := gains
  unfold present Table.contains
  cases before : tracked.get? p with
  | some u => rw [loads.kept p u before]
  | none =>
    cases after : later.get? p with
    | none => rfl
    | some u =>
      -- what is new was read from the tree, under some spelling of the same path
      obtain ⟨q, among, same, read⟩ := loads.read p u before after
      have saved : files.contains q = true := by
        rw [← isSome_fromTree?_files host (plains q among), read]
        rfl
      have alike : files.get? q = files.get? p := files.get?_congr same.rank_eq
      rw [← alike]
      exact saved.symm

theorem Gains.snapshot?_eq
    (gains : host.Gains (MemoryFiles.treeOf files)
      (host.snapshot? (MemoryFiles.treeOf files) p tracked).value.2 later) :
    (host.snapshot? (MemoryFiles.treeOf files) p later).value.1 =
      (host.snapshot? (MemoryFiles.treeOf files) p tracked).value.1 := by
  cases given : (host.snapshot? (MemoryFiles.treeOf files) p tracked).value.1 with
  | some u =>
    obtain ⟨wanted, -, loads⟩ := gains
    have held := loads.kept _ u ((snapshot?_tracked p).symm.trans given)
    rw [snapshot?_of_tracked held]
  | none =>
    have still := gains.present_eq p.real
    have loaded : (host.snapshot? (MemoryFiles.treeOf files) p tracked).value.2 = tracked := by
      rw [snapshot?_value] at given ⊢
      split at given <;> first | rfl | cases given
    rw [loaded, ← isSome_snapshot? host, ← isSome_snapshot? host, given] at still
    exact Option.isNone_iff_eq_none.mp (by simpa using still)

theorem Gains.isFile_eq (gains : host.Gains (MemoryFiles.treeOf files) tracked later) :
    (host.isFile (MemoryFiles.treeOf files) p later).value =
      (host.isFile (MemoryFiles.treeOf files) p tracked).value := by
  rw [isFile_value, isFile_value, gains.present_eq p.real]

theorem Gains.contents?_eq
    (gains : host.Gains (MemoryFiles.treeOf files)
      (host.contents? (MemoryFiles.treeOf files) p tracked).value.2 later) :
    (host.contents? (MemoryFiles.treeOf files) p later).value.1 =
      (host.contents? (MemoryFiles.treeOf files) p tracked).value.1 := by
  cases converted : p.isConverted with
  | true =>
    have loaded : (host.contents? (MemoryFiles.treeOf files) p tracked).value.2 =
        (host.snapshot? (MemoryFiles.treeOf files) p tracked).value.2 := by
      rw [contents?, if_pos converted]
      rfl
    rw [loaded] at gains
    rw [contents?_of_converted converted, contents?_of_converted converted, gains.snapshot?_eq]
  | false => rw [contents?_of_plain converted, contents?_of_plain converted]

end Host

namespace Session

variable {s : Session} {files : Table Path String} {p : Path} {query : Query}

/-- The session once a row of questions was answered. -/
def askedAll (s : Session) (tree : FileTree) (queries : List Query) : Session :=
  { s with held := (s.host.askAll tree s.held queries).value.2 }

/-- An answer about a file is given again, whatever is asked in between. -/
theorem ask_again (about : query.About p) (queries : List Query) :
    let tree := MemoryFiles.treeOf files
    let asked := (s.ask tree query).value
    ((asked.2.askedAll tree queries).ask tree query).value.1 = asked.1 := by
  intro tree asked
  have gains := s.host.gains_askAll tree asked.2.held queries
  cases about with
  | version =>
    have same := Host.Gains.snapshot?_eq gains
    exact congrArg (fun s? : Option Snapshot => Answer.text (s?.elim "" Snapshot.versionText)) same
  | snapshot => exact congrArg Answer.snapshot (Host.Gains.snapshot?_eq gains)
  | dialect =>
    have same := Host.Gains.snapshot?_eq gains
    exact congrArg (fun s? : Option Snapshot =>
      Answer.dialect (s?.elim (.ofPath p) Snapshot.dialect)) same
  | isFile => exact congrArg Answer.flag gains.isFile_eq
  | contents => exact congrArg Answer.contents (Host.Gains.contents?_eq gains)

end Session

/-- A converted path and the component behind it are answered alike and leave the session alike, but
for the dialect of what is not there. The converted path is told to be a file just while there is a
snapshot of the component, and reads as that; an open one reads as the editor has it. Any path can
be read just while it is told to be a file, and no question changes what another was answered. -/
theorem Session.twins_agree (s : Session) (files : Table Path String) (c : Path)
    (converted : c.isConverted = true) :
    let tree := MemoryFiles.treeOf files
    let answer := fun query => (s.ask tree query).value.1
    s.ask tree (.snapshot c) = s.ask tree (.snapshot c.real) ∧
    s.ask tree (.version c) = s.ask tree (.version c.real) ∧
    (∀ u, answer (.snapshot c) = .snapshot (some u) →
      s.ask tree (.dialect c) = s.ask tree (.dialect c.real)) ∧
    (∃ u?, answer (.snapshot c.real) = .snapshot u? ∧ answer (.isFile c) = .flag u?.isSome ∧
      answer (.contents c) = .contents (u?.map Snapshot.text)) ∧
    (∀ u, s.held.tracked.get? c.real = some u → answer (.contents c) = .contents (some u.text)) ∧
    (∀ p, ∃ text?, answer (.contents p) = .contents text? ∧
      answer (.isFile p) = .flag text?.isSome) ∧
    ∀ p query, query.About p → ∀ queries,
      let asked := (s.ask tree query).value
      ((asked.2.askedAll tree queries).ask tree query).value.1 = asked.1 := by
  intro tree answer
  have twin := s.host.snapshot?_real tree c s.held.tracked
  have snapshot : s.ask tree (.snapshot c) = s.ask tree (.snapshot c.real) := by
    simp only [ask, Host.ask, twin]
  have version : s.ask tree (.version c) = s.ask tree (.version c.real) := by
    simp only [ask, Host.ask, Host.version, twin]
  have text : (s.host.contents? tree c s.held.tracked).value.1 =
      (s.host.snapshot? tree c s.held.tracked).value.1.map Snapshot.text :=
    Host.contents?_of_converted converted
  have readable (p : Path) : answer (.isFile p) =
      .flag (s.host.contents? tree p s.held.tracked).value.1.isSome :=
    congrArg Answer.flag (Host.isSome_contents? p).symm
  refine ⟨snapshot, version, ?_, ?_, ?_, ?_, fun p query about => s.ask_again about⟩
  · intro u served
    have same := Host.dialect_real (Answer.snapshot.inj served)
    simp only [ask, Host.ask, same]
  · refine ⟨_, congrArg (·.value.1) snapshot.symm, ?_, congrArg Answer.contents text⟩
    rw [readable, text, Option.isSome_map]
  · intro u held
    refine congrArg Answer.contents ?_
    rw [text, Host.snapshot?_of_tracked held]
    rfl
  · exact fun p => ⟨_, rfl, readable p⟩

/-- The component that the editor has open is asked for under its converted path. -/
theorem Session.twins_agree_edited :
    let c := Sample.app.withEnding ".ts"
    let answer := fun query => (Sample.edited.session.ask (MemoryFiles.treeOf ∅) query).value.1
    c.isConverted = true ∧ answer (.isFile c) = .flag true ∧
      answer (.contents c) = .contents (some "js") := by
  intro c answer
  have converted : c.isConverted = true := by decide
  obtain ⟨-, -, -, ⟨u?, snapshot, isFile, contents⟩, -⟩ :=
    twins_agree Sample.edited.session ∅ c converted
  have edited : answer (.snapshot c.real) =
      .snapshot (some ⟨Sample.app, 1, "js", .jsx, .editor, true⟩) := rfl
  cases edited.symm.trans snapshot
  exact ⟨converted, isFile, contents⟩

end ComponentProjects
