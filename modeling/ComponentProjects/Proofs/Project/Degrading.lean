import ComponentProjects.Project.Configuration
import ComponentProjects.Proofs.Project.Trail

/-! Loading a project whose chain is broken. Whatever was read before the fault is dropped: the
configuration is that of a project without options of its own, and one warning names the fault. -/
namespace ComponentProjects

def Warning.aboutConfiguration : Warning → Bool
  | .unreadableConfiguration _ | .circularConfiguration _ | .invalidConfiguration _ => true
  | .malformedManifest _ | .failedConversion _ => false

theorem ChainFault.aboutConfiguration_warning (fault : ChainFault) :
    fault.warning.aboutConfiguration = true := by
  cases fault <;> rfl

/-- A note that warns of no project file. -/
def Note.Quiet (note : Note) : Prop :=
  ∀ warning, note = .warned warning → warning.aboutConfiguration = false

theorem Note.quiet_asked (question : Question) : (Note.asked question).Quiet :=
  fun _ same => by cases same

namespace Noted

variable {work : Noted α}

def configurationWarnings (work : Noted α) : List Warning :=
  work.warnings.filter Warning.aboutConfiguration

theorem configurationWarnings_bind (work : Noted α) (f : α → Noted β) :
    (work >>= f).configurationWarnings =
      work.configurationWarnings ++ (f work.value).configurationWarnings := by
  simp [configurationWarnings, warnings]

theorem configurationWarnings_of_quiet (quiet : work.Only Note.Quiet) :
    work.configurationWarnings = [] := by
  refine List.filter_eq_nil_iff.mpr fun warning member => ?_
  obtain ⟨note, among, found⟩ := List.mem_filterMap.mp member
  cases note with
  | asked question => cases found
  | warned other =>
    cases found
    simp [quiet _ among _ rfl]

theorem quiet_ask (question : Question) (answer : α) : (ask question answer).Only Note.Quiet := by
  intro note member
  cases List.mem_singleton.mp member
  exact Note.quiet_asked question

end Noted

variable {files : Table Path String}

theorem Chain.quiet_follow (more : Nat) (visited : List (List Component)) (path : Path) :
    (follow (MemoryFiles.treeOf files) more visited path).Only Note.Quiet := by
  induction more generalizing visited path with
  | zero => exact Noted.only_pure _
  | succ more ih =>
    rw [follow]
    split
    · exact Noted.only_pure _
    refine (Noted.quiet_ask _ _).bind ?_
    split
    · exact Noted.only_pure _
    split
    · exact Noted.only_pure _
    split
    · exact Noted.only_pure _
    have search := only_base? files
    refine ((search _ _).imp ?_).bind ?_
    · rintro note ⟨p, rfl⟩
      exact Note.quiet_asked _
    split
    · exact Noted.only_pure _
    refine (ih _ _).bind ?_
    split <;> exact Noted.only_pure _

namespace Loader

variable {loader : Loader} {path root : Path} {fault : ChainFault}

/-- Packages are warned of as packages, whatever becomes of the project file. -/
theorem quiet_seededBaseline (loader : Loader) (files : Table Path String) (dir : Path) :
    (loader.seededBaseline (MemoryFiles.treeOf files) dir).Only Note.Quiet := by
  have inDirectory (dir : Path) : (Package.inDirectory? (MemoryFiles.treeOf files)
      loader.settings.runtimePackage dir).Only Note.Quiet := by
    refine (Noted.quiet_ask _ _).bind ?_
    split
    · exact Noted.only_pure _
    split
    · refine Noted.Only.bind ?_ (Noted.only_pure _)
      intro note member warning same
      cases List.mem_singleton.mp member
      cases same
      rfl
    · exact Noted.only_pure _
  unfold seededBaseline
  split
  · exact Noted.Only.bind (Noted.only_firstUpward inDirectory dir) (Noted.only_pure _)
  · exact Noted.only_pure _

/-- The typings of the runtime package that is installed nearest to a directory. -/
def typings? (loader : Loader) (tree : FileTree) (dir : Path) : Option Path :=
  if loader.findsPackages then
    (Package.locate? tree loader.settings.runtimePackage dir).value.bind Package.typings
  else none

theorem get?_seededBaseline (loader : Loader) (tree : FileTree) (dir : Path) (key : String) :
    (loader.seededBaseline tree dir).value.get? key =
      (if key = "types" then
        (loader.typings? tree dir).map fun typings => .array [.string typings.toString]
      else none).or (Options.baseline.get? key) := by
  have located : (loader.seededBaseline tree dir).value =
      (loader.typings? tree dir).elim Options.baseline fun typings =>
        Options.baseline.insert "types" (.array [.string typings.toString]) := by
    unfold seededBaseline typings?
    split
    · simp only [Noted.value_bind, Noted.value_pure]
      split
      · rename_i typings found
        rw [found]
        rfl
      · rename_i none
        rw [none]
        rfl
    · rfl
  rw [located]
  cases loader.typings? tree dir with
  | none => simp
  | some typings =>
    simp only [Option.elim_some, Table.get?_insert, rank_string_inj, eq_comm (a := "types")]
    split <;> rfl

theorem get?_layers (baseline own forced : Options) (key : String) :
    (Options.layered [baseline, own, forced]).get? key =
      (forced.get? key).or ((own.get? key).or (baseline.get? key)) := by
  have laid : Options.layered [baseline, own, forced] =
      ((Options.merge ∅ baseline).merge own).merge forced := rfl
  rw [laid, Options.get?_merge, Options.get?_merge, Options.get?_merge, Table.get?_empty,
    Option.or_none]

theorem load_of_file (loader : Loader) (tree : FileTree) (path root : Path) :
    let directory := path.parent?.getD root
    loader.load tree (some path) root = (do
      let baseline ← loader.seededBaseline tree directory
      let (own, rootFiles) ← contribution tree path directory
      return ⟨some path, directory, .layered [baseline, own, .forced], rootFiles⟩) := rfl

theorem load_of_fault (loader : Loader) (root : Path)
    (broken : (Chain.files (MemoryFiles.treeOf files) path).value = .error fault) :
    let tree := MemoryFiles.treeOf files
    let directory := path.parent?.getD root
    let loaded := loader.load tree (some path) root
    loaded.value = ⟨some path, directory,
      .layered [(loader.seededBaseline tree directory).value, ∅, .forced], []⟩ ∧
    loaded.configurationWarnings = [fault.warning] := by
  intro tree directory loaded
  have own : (contribution tree path directory).value = (∅, []) := by
    simp only [contribution, Noted.value_bind, tree, broken]
    rfl
  have warned : (contribution tree path directory).configurationWarnings = [fault.warning] := by
    have followed : (Chain.files tree path).configurationWarnings = [] :=
      Noted.configurationWarnings_of_quiet (Chain.quiet_follow _ _ _)
    unfold contribution
    rw [Noted.configurationWarnings_bind, followed]
    simp only [tree, broken]
    simp [Noted.configurationWarnings, Noted.warnings, Noted.warn,
      fault.aboutConfiguration_warning]
  have seeded : (loader.seededBaseline tree directory).configurationWarnings = [] :=
    Noted.configurationWarnings_of_quiet (quiet_seededBaseline loader files directory)
  simp only [loaded, load_of_file]
  constructor
  · simp only [Noted.value_bind]
    rw [own]
    rfl
  · rw [Noted.configurationWarnings_bind, Noted.configurationWarnings_bind, seeded, warned]
    rfl

/-- Every chain over files in memory comes to a stop after visiting at most one path more than there
are files, and is circular just when the path it stops at was visited before. With a fault anywhere
in it the project has its seeded baseline and the forced options, and nothing else. -/
theorem load_follows_trail (loader : Loader) (files : Table Path String) (path root : Path) :
    let tree := MemoryFiles.treeOf files
    ∃ read last result, Chain.Trail tree path read last ∧ Chain.Stop tree read last result ∧
      (Chain.files tree path).value = result.map (read ++ [·]) ∧
      (Chain.files tree path).readings =
        read.map (·.path) ++ (if ∃ f ∈ read, f.path.Same last then [] else [last]) ∧
      (read.map (·.path) ++ [last]).length ≤ files.size + 1 ∧
      ((∃ again, (Chain.files tree path).value = .error (.circular again)) ↔
        ∃ f ∈ read, f.path.Same last) ∧
      ∀ fault, result = .error fault →
        let directory := path.parent?.getD root
        let loaded := loader.load tree (some path) root
        loaded.value = ⟨some path, directory, loaded.value.options, []⟩ ∧
        (∀ key, loaded.value.options.get? key = (Options.forced.get? key).or
          ((if key = "types" then
            (loader.typings? tree directory).map fun typings => .array [.string typings.toString]
          else none).or (Options.baseline.get? key))) ∧
        loaded.configurationWarnings = [fault.warning] := by
  intro tree
  have begun : Chain.Trail tree path [] path := .start
  obtain ⟨read, last, result, trail, stop⟩ := begun.exists_stop
  have outcome := Chain.value_files trail stop
  refine ⟨read, last, result, trail, stop, outcome, Chain.readings_files trail stop, ?_, ?_, ?_⟩
  · have fits := trail.length_le_size
    rw [List.length_append, List.length_map, List.length_singleton]
    exact Nat.succ_le_succ fits
  · rw [← stop.circular_iff, outcome]
    refine exists_congr fun again => ?_
    cases result with
    | error fault => simp [Except.map]
    | ok file => simp [Except.map]
  · rintro fault rfl directory loaded
    obtain ⟨degraded, warned⟩ := load_of_fault loader root outcome
    have configuration : loaded.value = ⟨some path, directory,
      .layered [(loader.seededBaseline tree directory).value, ∅, .forced], []⟩ := degraded
    refine ⟨?_, fun key => ?_, warned⟩
    · rw [configuration]
    · rw [configuration, get?_layers, get?_seededBaseline, Table.get?_empty, Option.none_or]

/-- A cycle that the first file is not part of. The options of the files on it are dropped, and the
typings of the package that is installed beside them stay. -/
theorem load_circular :
    let files : Table Path String := .ofList
      [(.ofString "/p/a.json", "\x7b\"extends\":\"./b\"\x7d"),
        (.ofString "/p/b.json",
          "\x7b\"extends\":\"./c\",\"compilerOptions\":\x7b\"strict\":true\x7d\x7d"),
        (.ofString "/p/c.json", "\x7b\"extends\":\"./b\"\x7d"),
        (.ofString "/p/node_modules/widget/package.json", "\x7b\"types\":\"index.d.ts\"\x7d")]
    let loaded := (⟨.default, true⟩ : Loader).load (MemoryFiles.treeOf files)
      (some (.ofString "/p/a.json")) (.ofString "/")
    let options := loaded.value.options
    loaded.value.rootFiles = [] ∧ options.bool? "noEmit" = some true ∧
      options.string? "target" = some "ESNext" ∧ (options.get? "strict").isNone ∧
      options.get? "types" = some (.array [.string "/p/node_modules/widget/index.d.ts"]) ∧
      loaded.configurationWarnings = [.circularConfiguration (.ofString "/p/b.json")] := by
  intro files loaded options
  have located : (⟨.default, true⟩ : Loader).typings? (MemoryFiles.treeOf files)
      ((Path.ofString "/p/a.json").parent?.getD (.ofString "/")) =
        some (.ofString "/p/node_modules/widget/index.d.ts") := by decide +kernel
  have fault : (Chain.files (MemoryFiles.treeOf files) (.ofString "/p/a.json")).value.map
      List.length = .error (.circular (.ofString "/p/b.json")) := by decide +kernel
  obtain ⟨read, last, result, -, -, outcome, -, -, -, degraded⟩ :=
    load_follows_trail ⟨.default, true⟩ files (.ofString "/p/a.json") (.ofString "/")
  rw [outcome] at fault
  cases result with
  | ok file => cases fault
  | error found =>
    cases fault
    obtain ⟨configuration, decided, warned⟩ := degraded _ rfl
    rw [located] at decided
    refine ⟨congrArg Configuration.rootFiles configuration, ?_, ?_, ?_, ?_, warned⟩
    · rw [Options.bool?, decided]
      rfl
    · rw [Options.string?, decided]
      rfl
    · rw [decided]
      rfl
    · rw [decided]
      rfl

end Loader

end ComponentProjects
