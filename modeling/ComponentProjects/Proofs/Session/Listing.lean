import Mathlib.Data.List.Sort
import ComponentProjects.Proofs.Session.Publishing
import ComponentProjects.Proofs.Session.Tracking

/-! The files that a host lists. The root files come first, each where it is configured first, and
behind them the other tracked paths in ascending order. So the list depends on the root files and on
which paths are tracked, and on nothing else that happened before. -/
namespace ComponentProjects

namespace Path

variable {paths others : List Path} {p q : Path}

theorem firsts_sublist (paths : List Path) : (firsts paths).Sublist paths := by
  induction paths with
  | nil => exact .slnil
  | cons p rest ih => exact (List.filter_sublist.trans ih).cons_cons p

theorem pairwise_firsts (paths : List Path) : (firsts paths).Pairwise fun p q => ¬ p.Same q := by
  induction paths with
  | nil => exact .nil
  | cons p rest ih =>
    refine List.pairwise_cons.mpr ⟨fun q later => ?_, ih.filter _⟩
    simpa using (List.mem_filter.mp later).2

theorem firsts_of_pairwise (apart : paths.Pairwise fun p q => ¬ p.Same q) :
    firsts paths = paths := by
  induction paths with
  | nil => rfl
  | cons p rest ih =>
    obtain ⟨first, rest_apart⟩ := List.pairwise_cons.mp apart
    rw [firsts, ih rest_apart]
    exact congrArg _ (List.filter_eq_self.mpr fun q later => by simpa using first q later)

theorem exists_firsts_iff : (∃ q ∈ firsts paths, q.Same p) ↔ ∃ q ∈ paths, q.Same p := by
  constructor
  · rintro ⟨q, first, same⟩
    exact ⟨q, (firsts_sublist paths).subset first, same⟩
  · rintro ⟨q, member, same⟩
    obtain ⟨r, first, alike⟩ := exists_same_of_mem member
    exact ⟨r, first, alike.trans same⟩

theorem firsts_append (paths others : List Path) : firsts (paths ++ others) =
    firsts paths ++
      (firsts others).filter fun p => !(firsts paths).any fun q => decide (q.Same p) := by
  have whole := foldl_keep [] (paths ++ others)
  have front := foldl_keep [] paths
  rw [List.foldl_append, front, foldl_keep] at whole
  simpa using whole.symm

theorem rank_mem_map_iff : rank p ∈ paths.map rank ↔ ∃ q ∈ paths, q.Same p := by
  simp only [List.mem_map, rank_eq_iff_same]

/-- Two ascending lists of the same paths differ in their spelling only. -/
theorem forall₂_same_of_ascending (ascending : paths.Pairwise fun p q => p.before q = true)
    (also : others.Pairwise fun p q => p.before q = true)
    (alike : ∀ p, (∃ q ∈ paths, q.Same p) ↔ ∃ q ∈ others, q.Same p) :
    List.Forall₂ Same paths others := by
  have ranks : paths.map rank = others.map rank := by
    refine List.Pairwise.eq_of_mem_iff (r := (· < ·)) ?_ ?_ fun r => ?_
    · exact List.pairwise_map.mpr (ascending.imp before_iff.mp)
    · exact List.pairwise_map.mpr (also.imp before_iff.mp)
    · constructor
      · intro member
        obtain ⟨p, -, rfl⟩ := List.mem_map.mp member
        exact rank_mem_map_iff.mpr ((alike p).mp (rank_mem_map_iff.mp member))
      · intro member
        obtain ⟨p, -, rfl⟩ := List.mem_map.mp member
        exact rank_mem_map_iff.mpr ((alike p).mpr (rank_mem_map_iff.mp member))
  have equal : List.Forall₂ (fun p q => rank p = rank q) paths others := by
    rw [← List.forall₂_map_right_iff, ← List.forall₂_map_left_iff, List.forall₂_eq_eq_eq]
    exact ranks
  exact equal.imp fun p q => rank_eq_iff_same.mp

end Path

/-- The list of some root files and of the tracked paths: each once, and the root files first, in
their order. -/
structure Lists (roots : List Path) (tracked : Path → Prop) (names : List Path) : Prop where
  once : names.Pairwise fun p q => ¬ p.Same q
  all : ∀ p, (∃ q ∈ names, q.Same p) ↔ (∃ r ∈ roots, r.Same p) ∨ tracked p
  ordered : ∃ others, names = Path.firsts roots ++ others ∧
    (∀ q ∈ others, tracked q ∧ ∀ r ∈ roots, ¬ r.Same q) ∧
    others.Pairwise fun p q => p.before q = true

namespace Lists

variable {roots names others : List Path} {tracked also : Path → Prop}

theorem mem_others_iff (lists : Lists roots tracked (Path.firsts roots ++ others))
    (apart : ∀ q ∈ others, tracked q ∧ ∀ r ∈ roots, ¬ r.Same q) (p : Path) :
    (∃ q ∈ others, q.Same p) ↔ tracked p ∧ ∀ r ∈ roots, ¬ r.Same p := by
  constructor
  · rintro ⟨q, other, same⟩
    have rootless : ∀ r ∈ roots, ¬ r.Same p := fun r root alike =>
      (apart q other).2 r root (alike.trans same.symm)
    rcases (lists.all p).mp ⟨q, List.mem_append_right _ other, same⟩ with ⟨r, root, alike⟩ | held
    · exact absurd alike (rootless r root)
    · exact ⟨held, rootless⟩
  · rintro ⟨held, rootless⟩
    obtain ⟨q, member, same⟩ := (lists.all p).mpr (.inr held)
    rcases List.mem_append.mp member with root | other
    · exact absurd same (rootless q ((Path.firsts_sublist roots).subset root))
    · exact ⟨q, other, same⟩

/-- There is one such list, up to the spelling of the paths. -/
theorem forall₂_same (lists : Lists roots tracked names) (again : Lists roots also others)
    (alike : ∀ p, tracked p ↔ also p) : List.Forall₂ Path.Same names others := by
  obtain ⟨rest, rfl, apart, ascending⟩ := lists.ordered
  obtain ⟨more, rfl, distant, climbing⟩ := again.ordered
  have same : List.Forall₂ Path.Same rest more :=
    Path.forall₂_same_of_ascending ascending climbing fun p => by
      rw [lists.mem_others_iff apart, again.mem_others_iff distant, alike]
  exact List.rel_append (List.forall₂_same.mpr fun p _ => .refl p) same

end Lists

namespace Host

variable {host : Host}

theorem contains_iff_exists_key {tracked : Snapshots} {p : Path} :
    tracked.contains p = true ↔ ∃ q ∈ tracked.keys, q.Same p := by
  simp only [Table.contains_iff, Path.rank_eq_iff_same]

theorem lists_fileNames (host : Host) (tracked : Snapshots) :
    Lists host.configuration.rootFiles (tracked.contains · = true) (host.fileNames tracked) := by
  have keys := Path.firsts_of_pairwise (tracked.pairwise_keys.imp Path.not_same_of_before)
  rw [fileNames_eq]
  refine ⟨Path.pairwise_firsts _, fun p => ?_, _, Path.firsts_append _ _, fun q other => ?_, ?_⟩
  · rw [Path.exists_firsts_iff, contains_iff_exists_key]
    simp only [List.mem_append, or_and_right, exists_or]
  · rw [keys] at other
    obtain ⟨key, new⟩ := List.mem_filter.mp other
    have rootless : ¬ ∃ r ∈ Path.firsts host.configuration.rootFiles, r.Same q := by
      simpa using new
    rw [Path.exists_firsts_iff] at rootless
    exact ⟨contains_iff_exists_key.mpr ⟨q, key, .refl q⟩, fun r root same =>
      rootless ⟨r, root, same⟩⟩
  · rw [keys]
    exact tracked.pairwise_keys.filter _

end Host

theorem Record.lists {host : Host} {l : Scene} {before : List Scene}
    (record : Record host (l :: before)) (keeps : host.newDocument.KeepsPath) :
    Lists host.configuration.rootFiles l.moment.Tracks
      (l.moment.session.host.fileNames l.moment.session.held.tracked) := by
  rw [record.course.session_host keeps]
  exact host.lists_fileNames _

/-- At every moment the listed files are the root files and what was brought and not deleted since.
Sessions that have the same roots and track the same paths list the same files. -/
theorem Record.fileNames_exact {host : Host} {l : Scene} {before : List Scene}
    (record : Record host (l :: before)) (keeps : host.newDocument.KeepsPath) :
    ∃ names,
      (∀ tree, l.moment.session.ask tree .fileNames = pure (.paths names, l.moment.session)) ∧
      Lists host.configuration.rootFiles l.moment.Tracks names ∧
      (∀ p, l.moment.Tracks p ↔ Brought (l :: before) p) ∧
      ∀ (other : Host) (m : Scene) (earlier : List Scene), Record other (m :: earlier) →
        other.newDocument.KeepsPath →
        other.configuration.rootFiles = host.configuration.rootFiles →
        (∀ p, l.moment.Tracks p ↔ m.moment.Tracks p) →
        ∃ again, (∀ tree, m.moment.session.ask tree .fileNames =
          pure (.paths again, m.moment.session)) ∧ List.Forall₂ Path.Same names again := by
  have lists := record.lists keeps
  refine ⟨_, fun _ => rfl, lists, record.tracks_iff keeps, ?_⟩
  intro other m earlier again keep roots alike
  have others := again.lists keep
  rw [roots] at others
  exact ⟨_, fun _ => rfl, lists.forall₂_same others alike⟩

namespace Sample

def script : Path := .ofString "/p/main.ts"

/-- A project whose one root file is configured in two spellings. -/
def rooted : Host :=
  { host with configuration := ⟨none, .ofString "/p", ∅, [script, .ofString "/p//main.ts"]⟩ }

def begun : Scene :=
  ⟨some (disk "js"), ⟨.global, rooted, .nothing, ⟨0, 0⟩, ∅⟩, 1, .opened [] ⟨[], some 0⟩⟩
def read : Scene := begun.next (.ask (disk "js") (.version menu))
def sent : Scene := read.next (.update (disk "js") [] none ⟨app, 1, "js"⟩)
def tidied : Scene := sent.next (.delete menu)

theorem record_sent : Record rooted [sent, read, begun] :=
  .moved (.moved (.opened .global ⟨[], none, 0⟩ (disk "js") _ _ rfl) _) _

/-- One component is read and deleted again, and another one is sent by the editor. -/
theorem fileNames_tidied :
    let scenes := [tidied, sent, read, begun]
    Record rooted scenes ∧ rooted.newDocument.KeepsPath ∧
      (tidied.moment.session.ask (disk "js") .fileNames).value.1 = .paths [script, app] ∧
      Lists [script, .ofString "/p//main.ts"] tidied.moment.Tracks [script, app] ∧
      Brought [sent, read, begun] menu ∧ Brought scenes app ∧ ¬ Brought scenes menu := by
  intro scenes
  have record : Record rooted scenes := .moved record_sent (.delete menu)
  have keeps : rooted.newDocument.KeepsPath := DocumentFactory.plain_keepsPath
  obtain ⟨names, told, lists, exact, -⟩ := record.fileNames_exact keeps
  obtain ⟨-, -, -, before, -⟩ := record_sent.fileNames_exact keeps
  have answered : Answer.paths [script, app] = .paths names :=
    congrArg (·.value.1) (told (disk "js"))
  cases answered
  refine ⟨record, keeps, rfl, lists, (before menu).mp rfl, (exact app).mp rfl, fun brought => ?_⟩
  have tracked : tidied.moment.Tracks menu := (exact menu).mpr brought
  cases tracked

end Sample

end ComponentProjects
