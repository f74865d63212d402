import ComponentProjects.Dialect
import ComponentProjects.Templated

/-! Two spellings of one path rank alike, and so they read alike in every table. The last
component decides what kind of file a path names, so no spelling of a path changes that. -/
namespace ComponentProjects

theorem Component.rank_inj {a b : Component} (h : a.rank = b.rank) : a = b := by
  cases a <;> cases b
  case name.name a b =>
    have words : a = b :=
      (List.map_inj_right fun _ _ => Char.toNat_inj.mp).mp (List.cons.inj h).2
    rw [words]
  all_goals first | rfl | cases h

theorem segments_of_plain {word : List Char} (plain : '/' ∉ word) : segments word = [word] := by
  induction word with
  | nil => rfl
  | cons c rest ih =>
    have apart : c ≠ '/' ∧ '/' ∉ rest := by simpa [eq_comm] using plain
    simp [segments, apart.1, ih apart.2]

namespace Path

theorem rank_eq_iff_same {p q : Path} : rank p = rank q ↔ p.Same q :=
  List.map_inj_right fun _ _ => Component.rank_inj

theorem Same.refl (p : Path) : p.Same p := rfl

theorem Same.symm {p q : Path} (h : p.Same q) : q.Same p := Eq.symm h

theorem Same.trans {p q r : Path} (h : p.Same q) (g : q.Same r) : p.Same r := Eq.trans h g

theorem Same.rank_eq {p q : Path} (h : p.Same q) : rank p = rank q := rank_eq_iff_same.mpr h

theorem before_iff {p q : Path} : p.before q = true ↔ rank p < rank q := decide_eq_true_iff

theorem not_same_of_before {p q : Path} (before : p.before q = true) : ¬ p.Same q := by
  intro same
  have less := before_iff.mp before
  rw [same.rank_eq] at less
  exact List.lt_irrefl _ less

theorem Same.extension?_eq {p q : Path} (h : p.Same q) : p.extension? = q.extension? := by
  have last : p.fileName? = q.fileName? := by
    unfold fileName?
    rw [show p.components = q.components from h]
  simp only [extension?, last]

theorem Same.isTemplated_eq {p q : Path} (h : p.Same q) : p.isTemplated = q.isTemplated := by
  simp only [isTemplated, h.extension?_eq]

theorem startsWith_iff {p dir : Path} :
    p.startsWith dir = true ↔ dir.components <+: p.components := List.isPrefixOf_iff_prefix

theorem startsWith_trans {p q dir : Path} (lower : p.startsWith q = true)
    (upper : q.startsWith dir = true) : p.startsWith dir = true :=
  startsWith_iff.mpr ((startsWith_iff.mp upper).trans (startsWith_iff.mp lower))

theorem isBeneath_iff {p dir : Path} :
    p.isBeneath dir = true ↔ dir.components <+: p.components ∧ ¬ p.Same dir := by
  rw [isBeneath, Bool.and_eq_true, startsWith_iff, Bool.not_eq_true', decide_eq_false_iff_not]

theorem Same.isBeneath_eq {p q dir : Path} (h : p.Same q) : p.isBeneath dir = q.isBeneath dir := by
  rw [Bool.eq_iff_iff, isBeneath_iff, isBeneath_iff, Same, Same, h]

theorem Same.isBeneath_dir_eq {p dir place : Path} (h : dir.Same place) :
    p.isBeneath dir = p.isBeneath place := by
  rw [Bool.eq_iff_iff, isBeneath_iff, isBeneath_iff, Same, Same, h]

/-- Text without a slash goes to the last of the words. -/
theorem segments_append {word : List Char} (plain : '/' ∉ word) (text : List Char) :
    ∃ front last, segments text = front ++ [last] ∧
      segments (text ++ word) = front ++ [last ++ word] := by
  induction text with
  | nil => exact ⟨[], [], rfl, segments_of_plain plain⟩
  | cons c rest ih =>
    obtain ⟨front, last, before, after⟩ := ih
    by_cases slash : c = '/'
    · exact ⟨[] :: front, last, by simp [segments, slash, before],
        by simp [segments, slash, after]⟩
    · cases front with
      | nil => exact ⟨[], c :: last, by simp_all [segments], by simp_all [segments]⟩
      | cons word words =>
        exact ⟨(c :: word) :: words, last, by simp_all [segments], by simp_all [segments]⟩

theorem fileName?_of_segments {p : Path} {front : List (List Char)} {word : List Char}
    (words : segments p.text = front ++ [word])
    (named : Component.ofSegment? word = some (.name word)) : p.fileName? = some word := by
  have last : p.components.getLast? = some (.name word) := by
    unfold components
    rw [words]
    cases front with
    | nil => split <;> simp_all [Component.ofSegment?]
    | cons first rest =>
      have behind : (rest ++ [word]).filterMap Component.ofSegment? =
          rest.filterMap Component.ofSegment? ++ [.name word] := by
        simp [List.filterMap_append, named]
      rw [List.cons_append]
      split
      · contradiction
      · rename_i alone
        simp at alone
      · rename_i absolute
        cases absolute
        rw [behind, ← List.cons_append, List.getLast?_concat]
      · rename_i current
        cases current
        rw [behind, ← List.cons_append, List.getLast?_concat]
      · rw [← List.cons_append, List.filterMap_append]
        simp [named]
  simp only [fileName?, last]

end Path

theorem Table.pairwise_keys (files : Table Path α) :
    files.keys.Pairwise fun p q => p.before q = true :=
  List.pairwise_map.mpr (files.ascending.imp fun less => Path.before_iff.mpr less)

/-- A declaration file is read as a script for its extension alone. -/
theorem Dialect.ofPath_eq (p : Path) : ofPath p = p.extension?.elim .unknown ofExtension := by
  unfold ofPath
  split
  · rename_i declaration
    obtain ⟨stem, text⟩ := List.isSuffixOf_iff_suffix.mp declaration
    have plain : '/' ∉ ".d.ts".toList := by decide
    obtain ⟨front, last, -, words⟩ := Path.segments_append plain stem
    rw [text] at words
    have named : Component.ofSegment? (last ++ ".d.ts".toList) =
        some (.name (last ++ ".d.ts".toList)) := by
      unfold Component.ofSegment?
      split
      · simp_all
      · rename_i dot
        simpa using congrArg List.length dot
      · rename_i dots
        simpa using congrArg List.length dots
      · rfl
    have extension : p.extension? = some ['t', 's'] := by
      simp [Path.extension?, Path.fileName?_of_segments words named, Path.extensionOf]
    rw [extension]
    rfl
  · rfl

theorem Dialect.ofPath_eq_of_same {p q : Path} (same : p.Same q) : ofPath p = ofPath q := by
  rw [ofPath_eq, ofPath_eq, same.extension?_eq]

end ComponentProjects
