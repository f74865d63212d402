import ComponentProjects.Glob.Match
import ComponentProjects.Proofs.Path.Converted

/-! Where a glob's matches lie. Up to its first wildcard a pattern is taken word for word, slashes
included, so whatever matches it begins with the components of its base directory. -/
namespace ComponentProjects
namespace Glob

variable {close : Close} {text : List Char} {p : Path} {g : Glob}

/-- Words with a slash behind each. -/
def withSlashes (words : List (List Char)) : List Char := words.flatMap (· ++ ['/'])

@[simp] theorem withSlashes_nil : withSlashes [] = [] := rfl

@[simp] theorem withSlashes_cons (word : List Char) (words : List (List Char)) :
    withSlashes (word :: words) = word ++ '/' :: withSlashes words := by
  simp [withSlashes]

theorem withSlashes_eq {words : List (List Char)} (some : words ≠ []) :
    withSlashes words = joined words ++ ['/'] := by
  induction words with
  | nil => contradiction
  | cons word rest ih =>
    cases rest with
    | nil => simp [withSlashes, joined]
    | cons next rest =>
      have others := ih (by simp)
      rw [joined_cons_cons, List.append_assoc, List.cons_append, ← others]
      simp [withSlashes]

theorem literalFront_cons (word next : List Char) (rest : List (List Char)) :
    literalFront (word :: next :: rest) =
      if hasWildcard word then [] else word :: literalFront (next :: rest) := by
  simp only [literalFront, List.dropLast_cons_cons, List.takeWhile_cons]
  cases hasWildcard word <;> rfl

theorem exists_of_takes_char {c : Char} {marks : List Mark}
    (taken : takes close (.char c :: marks) text = true) :
    ∃ rest, text = c :: rest ∧ takes close marks rest = true := by
  cases text with
  | nil => cases taken
  | cons d rest =>
    simp only [takes, Mark.takes, afterOne, Bool.and_eq_true, decide_eq_true_eq] at taken
    exact ⟨rest, by rw [taken.1], taken.2⟩

/-- A word without wildcards takes itself. -/
theorem exists_of_takes_word {word : List Char} {marks : List Mark}
    (plain : hasWildcard word = false)
    (taken : takes close (word.map markOf ++ marks) text = true) :
    ∃ rest, text = word ++ rest ∧ takes close marks rest = true := by
  induction word generalizing text with
  | nil => exact ⟨text, rfl, taken⟩
  | cons c word ih =>
    obtain ⟨here, later⟩ : (c ≠ '*' ∧ c ≠ '?') ∧ hasWildcard word = false := by
      simpa [hasWildcard] using plain
    have mark : markOf c = .char c := by rw [markOf, if_neg here.1, if_neg here.2]
    rw [List.map_cons, mark, List.cons_append] at taken
    obtain ⟨behind, rfl, others⟩ := exists_of_takes_char taken
    obtain ⟨rest, rfl, left⟩ := ih later others
    exact ⟨rest, rfl, left⟩

theorem exists_of_takes_marksOf {words : List (List Char)}
    (taken : takes close (marksOf words) text = true) :
    ∃ rest, text = withSlashes (literalFront words) ++ rest := by
  induction words generalizing text with
  | nil => exact ⟨text, rfl⟩
  | cons word rest ih =>
    cases rest with
    | nil => exact ⟨text, rfl⟩
    | cons next rest =>
      rw [literalFront_cons]
      cases wild : hasWildcard word with
      | true => exact ⟨text, rfl⟩
      | false =>
        have single : word ≠ ['*', '*'] := by
          rintro rfl
          cases wild
        have marks : marksOf (word :: next :: rest) =
            word.map markOf ++ .char '/' :: marksOf (next :: rest) := if_neg single
        rw [marks] at taken
        obtain ⟨_, rfl, slash⟩ := exists_of_takes_word wild taken
        obtain ⟨_, rfl, others⟩ := exists_of_takes_char slash
        obtain ⟨back, rfl⟩ := ih others
        exact ⟨back, by simp [withSlashes]⟩

theorem slashed_of_plain (plain : '\\' ∉ text) : slashed text = text := by
  induction text with
  | nil => rfl
  | cons c rest ih =>
    obtain ⟨here, later⟩ : c ≠ '\\' ∧ '\\' ∉ rest := by simpa [eq_comm] using plain
    rw [slashed, List.map_cons, if_neg here]
    exact congrArg (c :: ·) (ih later)

/-- The components of a path that begins with the front of a pattern are those of the base and of
what is behind it. -/
theorem components_of_front {words : List (List Char)} (plain : ∀ word ∈ words, '/' ∉ word)
    (some : literalFront words ≠ []) (rest : List Char) :
    (⟨withSlashes (literalFront words) ++ rest⟩ : Path).components =
      (baseOf words).components ++ Component.behind rest := by
  rw [withSlashes_eq some, List.append_assoc, List.singleton_append]
  unfold baseOf
  split
  · rename_i root
    rw [root]
    exact Path.components_cons_slash rest
  · rename_i other
    refine Path.components_append_slash (fun empty => ?_) rest
    have parted := segments_joined some fun word member =>
      plain word ((List.dropLast_subset words) ((List.takeWhile_prefix _).subset member))
    rw [empty] at parted
    exact other parted.symm

theorem baseOf_of_no_front {words : List (List Char)} (none : literalFront words = []) :
    baseOf words = ⟨[]⟩ := by
  unfold baseOf
  rw [none]
  rfl

/-- A match lies beneath the pattern's base when the last character of its path can stand in a
name. -/
theorem isBeneath_of_isMatch {pattern : List Char}
    (found : (compile pattern close).isMatch p = true) (plain : '\\' ∉ p.text) {c : Char}
    (last : p.text.getLast? = some c) (slash : c ≠ '/') (dot : c ≠ '.') :
    p.isBeneath (compile pattern close).base = true := by
  rw [isMatch_eq, slashed_of_plain plain] at found
  obtain ⟨rest, text⟩ := exists_of_takes_marksOf found
  have whole : p = ⟨withSlashes (literalFront (segments pattern)) ++ rest⟩ := by rw [← text]
  rw [compile, Path.isBeneath_iff]
  by_cases none : literalFront (segments pattern) = []
  · have base : (baseOf (segments pattern)).components = [] := by
      rw [baseOf_of_no_front none]
      rfl
    rw [base]
    refine ⟨List.nil_prefix, fun same => ?_⟩
    rw [Path.components_eq_nil_iff.mp (Eq.trans same base)] at last
    cases last
  · have parts := components_of_front (fun _ => plain_of_mem_segments) none rest
    rw [← whole] at parts
    refine ⟨⟨_, parts.symm⟩, fun same => ?_⟩
    -- the last character is behind the slash that closes the front, in a word that names something
    have among : c ∈ rest := by
      rw [text, withSlashes_eq none, List.getLast?_append] at last
      cases behind : rest.getLast? with
      | none => simp [behind, eq_comm, slash] at last
      | some d =>
        rw [behind] at last
        cases last
        exact List.mem_of_getLast? behind
    obtain ⟨word, member, inside⟩ := (mem_iff_mem_segments slash rest).mp among
    obtain ⟨part, named, -⟩ := (Component.mem_word_iff dot).mp inside
    have stands : part ∈ Component.behind rest := List.mem_filterMap.mpr ⟨word, member, named⟩
    rw [List.append_right_eq_self.mp (parts.symm.trans same)] at stands
    cases stands

end Glob
end ComponentProjects
