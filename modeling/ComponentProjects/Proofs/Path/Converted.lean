import ComponentProjects.Proofs.Path.Joining

/-! Converted spellings of paths that are read from a directory. An ending without a slash belongs
to what is joined, so the way the directory is spelled does not decide whether a joined path is
converted, nor which component file stands behind it. -/
namespace ComponentProjects.Path

variable {p q r : Path} {ending text real : List Char}

theorem beforeEnding?_front (plain : '/' ∉ ending) (p : Path) (text : List Char) :
    Text.beforeEnding? ending (p.front ++ text) =
      (Text.beforeEnding? ending text).map (p.front ++ ·) := by
  ext stem
  rw [Text.beforeEnding?_eq_some_iff, Option.map_eq_some_iff]
  constructor
  · intro whole
    rcases List.append_eq_append_iff.mp whole with ⟨back, rfl, rest⟩ | ⟨part, front, cut⟩
    · exact ⟨back, Text.beforeEnding?_eq_some_iff.mpr rest, rfl⟩
    · -- the ending would begin ahead of the slash that closes the front
      have none : part = [] := by
        rcases p.front_closed with empty | ⟨body, closed⟩
        · rw [empty] at front
          exact (List.append_eq_nil_iff.mp front.symm).2
        · rw [closed] at front
          rcases List.eq_nil_or_concat part with none | ⟨others, last, rfl⟩
          · exact none
          · have slash : '/' = last := by simpa using congrArg List.getLast? front
            simp [cut, ← slash] at plain
      subst none
      rw [List.append_nil] at front
      rw [List.nil_append] at cut
      refine ⟨[], Text.beforeEnding?_eq_some_iff.mpr cut.symm, ?_⟩
      rw [front, List.append_nil]
  · rintro ⟨back, found, rfl⟩
    rw [Text.beforeEnding?_eq_some_iff.mp found, List.append_assoc]

theorem endsWith_eq (p : Path) (ending : String) :
    p.endsWith ending = (Text.beforeEnding? ending.toList p.text).isSome := by
  unfold endsWith Text.beforeEnding?
  cases ending.toList.isSuffixOf p.text <;> rfl

theorem endsWith_join {ending : String} (plain : '/' ∉ ending.toList) (p q : Path) :
    (p.join q).endsWith ending = q.endsWith ending := by
  by_cases absolute : q.isAbsolute = true
  · rw [join_of_absolute absolute]
  · rw [join_of_relative (by simpa using absolute), endsWith_eq, endsWith_eq,
      beforeEnding?_front plain, Option.isSome_map]

theorem getLast?_of_endsWith {ending : String} (some : ending.toList ≠ [])
    (ends : p.endsWith ending = true) : p.text.getLast? = ending.toList.getLast? := by
  obtain ⟨stem, text⟩ := List.isSuffixOf_iff_suffix.mp ends
  rw [← text, List.getLast?_append]
  cases last : ending.toList.getLast? with
  | none => exact absurd (List.getLast?_eq_none_iff.mp last) some
  | some c => rfl

/-- The ending of a component file's path. -/
def componentEnding : List Char := '.' :: templatedExtension

theorem realText?_eq_some_iff : realText? text = some real ↔
    ∃ stem, text = stem ++ componentEnding ++ scriptEnding ∧ real = stem ++ componentEnding ∧
      stem ≠ [] ∧ '\n' ∉ stem := by
  simp only [realText?, Option.bind_eq_bind, Option.bind_eq_some_iff,
    Text.beforeEnding?_eq_some_iff]
  constructor
  · rintro ⟨_, rfl, stem, rfl, given⟩
    split at given
    · cases given
    · rename_i proper
      cases given
      exact ⟨stem, rfl, rfl, by simpa using proper⟩
  · rintro ⟨stem, rfl, rfl, some, line⟩
    refine ⟨_, rfl, stem, rfl, ?_⟩
    rw [if_neg (by simp [some, line])]

theorem isConverted_iff : p.isConverted = true ↔ ∃ real, realText? p.text = some real :=
  Option.isSome_iff_exists

theorem endsWith_of_isConverted (converted : p.isConverted = true) : p.endsWith ".ts" = true := by
  obtain ⟨real, found⟩ := isConverted_iff.mp converted
  obtain ⟨stem, text, -⟩ := realText?_eq_some_iff.mp found
  refine List.isSuffixOf_iff_suffix.mpr ?_
  rw [text]
  exact List.suffix_append _ _

theorem real_eq_of_realText? (found : realText? p.text = some real) : p.real = ⟨real⟩ := by
  simp [Path.real, found]

theorem endsWith_real (converted : p.isConverted = true) :
    p.real.endsWith ".widget" = true := by
  obtain ⟨real, found⟩ := isConverted_iff.mp converted
  obtain ⟨stem, -, rfl, -⟩ := realText?_eq_some_iff.mp found
  rw [real_eq_of_realText? found]
  exact List.isSuffixOf_iff_suffix.mpr (List.suffix_append stem componentEnding)

theorem isConverted_of_component (component : p.endsWith ".widget" = true) :
    p.isConverted = false := by
  refine Bool.eq_false_iff.mpr fun converted => ?_
  have script := getLast?_of_endsWith (by decide) (endsWith_of_isConverted converted)
  have other := getLast?_of_endsWith (by decide) component
  exact absurd (script.symm.trans other) (by decide)

theorem isConverted_real (p : Path) : p.real.isConverted = false := by
  cases converted : p.isConverted with
  | false => rw [real_eq_self converted, converted]
  | true => exact isConverted_of_component (endsWith_real converted)

theorem real_real (p : Path) : p.real.real = p.real := real_eq_self p.isConverted_real

theorem real_withEnding {p : Path} (converted : (p.withEnding ".ts").isConverted = true) :
    (p.withEnding ".ts").real = p := by
  obtain ⟨real, found⟩ := isConverted_iff.mp converted
  obtain ⟨stem, whole, rfl, -⟩ := realText?_eq_some_iff.mp found
  have text : p.text = stem ++ componentEnding := List.append_cancel_right whole
  rw [real_eq_of_realText? found, ← text]

theorem Same.real_of_isConverted (same : p.Same q) (converted : p.isConverted = true)
    (also : q.isConverted = true) : p.real.Same q.real := by
  obtain ⟨_, found⟩ := isConverted_iff.mp converted
  obtain ⟨_, given⟩ := isConverted_iff.mp also
  obtain ⟨stem, text, rfl, -⟩ := realText?_eq_some_iff.mp found
  obtain ⟨front, other, rfl, -⟩ := realText?_eq_some_iff.mp given
  obtain ⟨parts, last, own⟩ := exists_components_append stem
  obtain ⟨heads, name, others⟩ := exists_components_append front
  have whole : (⟨stem ++ (componentEnding ++ scriptEnding)⟩ : Path).components =
      (⟨front ++ (componentEnding ++ scriptEnding)⟩ : Path).components := by
    rw [← List.append_assoc, ← List.append_assoc, ← text, ← other]
    exact same
  have plain : '/' ∉ componentEnding ++ scriptEnding := by decide
  have long : 2 < (componentEnding ++ scriptEnding).length := by decide
  rw [own _ plain long, others _ plain long] at whole
  obtain ⟨rfl, last_eq⟩ := List.append_inj' whole rfl
  have named : last = name := by simpa using last_eq
  unfold Same
  rw [real_eq_of_realText? found, real_eq_of_realText? given, own _ (by decide) (by decide),
    others _ (by decide) (by decide), named]

theorem suffix_of_extensionOf {word extension : List Char}
    (found : extensionOf word = some extension) : extension <:+ word := by
  unfold extensionOf at found
  split at found
  · cases found
    have front := word.reverse.takeWhile_prefix (· ≠ '.')
    rwa [← List.reverse_suffix, List.reverse_reverse] at front
  · cases found

theorem extension?_of_isConverted (converted : p.isConverted = true) :
    p.extension? = some ['t', 's'] := by
  obtain ⟨_, found⟩ := isConverted_iff.mp converted
  obtain ⟨stem, text, -⟩ := realText?_eq_some_iff.mp found
  obtain ⟨parts, last, own⟩ := exists_components_append stem
  have components := own (componentEnding ++ scriptEnding) (by decide) (by decide)
  rw [← List.append_assoc, ← text] at components
  simp [extension?, fileName?, components, extensionOf, scriptEnding, componentEnding,
    templatedExtension]

/-- No spelling of a component file's path is converted. -/
theorem Same.isConverted_of_isTemplated (same : q.Same p) (component : p.isTemplated = true) :
    q.isConverted = false := by
  refine Bool.eq_false_iff.mpr fun converted => ?_
  rw [← same.isTemplated_eq, isTemplated, extension?_of_isConverted converted] at component
  simp [templatedExtension] at component

theorem Same.mem_text_iff {c : Char} (slash : c ≠ '/') (dot : c ≠ '.') (same : p.Same q) :
    c ∈ p.text ↔ c ∈ q.text := by
  rw [Path.mem_text_iff slash dot, Path.mem_text_iff slash dot, same]

/-- Two spellings of a directory lead to converted paths of one component file. -/
theorem Same.real_join_of_converted (same : p.Same q) (relative : r.isAbsolute = false)
    (converted : (p.join r).isConverted = true) : ∃ file : Path,
      (p.join r).real = p.join file ∧ (q.join r).real = q.join file ∧
        (q.join r).isConverted = true := by
  obtain ⟨real, found⟩ := isConverted_iff.mp converted
  obtain ⟨stem, whole, rfl, some, line⟩ := realText?_eq_some_iff.mp found
  -- the stem begins with the directory, as the converted ending has no slash in it
  have plain : '/' ∉ componentEnding ++ scriptEnding := by decide
  rw [join_of_relative relative, List.append_assoc] at whole
  have cut := Text.beforeEnding?_eq_some_iff.mpr whole
  rw [beforeEnding?_front plain] at cut
  obtain ⟨own, before, rfl⟩ := Option.map_eq_some_iff.mp cut
  have text := Text.beforeEnding?_eq_some_iff.mp before
  have named : own ++ componentEnding ≠ [] := by simp [componentEnding]
  have file : (⟨own ++ componentEnding⟩ : Path).isAbsolute = false := by
    cases own with
    | nil => rfl
    | cons c own =>
      simp only [isAbsolute, text] at relative ⊢
      simpa using relative
  have other : realText? (q.join r).text = Option.some (q.front ++ own ++ componentEnding) := by
    refine realText?_eq_some_iff.mpr ⟨q.front ++ own, ?_, rfl, ?_, ?_⟩
    · rw [join_of_relative relative, text]
      simp
    · intro none
      obtain ⟨empty, rfl⟩ := List.append_eq_nil_iff.mp none
      have also : p.front = [] :=
        front_eq_nil_iff.mpr (same.text_eq_nil_iff.mpr (front_eq_nil_iff.mp empty))
      simp [also] at some
    · have line' : '\n' ∉ p.text ∧ '\n' ∉ own := by
        simpa [mem_front_iff (show '\n' ≠ '/' by decide)] using line
      have still : '\n' ∉ q.text :=
        line'.1 ∘ (same.mem_text_iff (by decide) (by decide)).mpr
      simpa [mem_front_iff (show '\n' ≠ '/' by decide)] using And.intro still line'.2
  refine ⟨⟨own ++ componentEnding⟩, ?_, ?_, isConverted_iff.mpr ⟨_, other⟩⟩
  · rw [real_eq_of_realText? found, join_of_relative file, List.append_assoc]
  · rw [real_eq_of_realText? other, join_of_relative file, List.append_assoc]

theorem Same.isConverted_join (same : p.Same q) (r : Path) :
    (p.join r).isConverted = (q.join r).isConverted := by
  by_cases absolute : r.isAbsolute = true
  · rw [join_of_absolute absolute, join_of_absolute absolute]
  · have relative : r.isAbsolute = false := by simpa using absolute
    rw [Bool.eq_iff_iff]
    constructor
    · intro converted
      obtain ⟨_, _, _, also⟩ := same.real_join_of_converted relative converted
      exact also
    · intro converted
      obtain ⟨_, _, _, also⟩ := same.symm.real_join_of_converted relative converted
      exact also

theorem Same.real_join (same : p.Same q) (r : Path) : (p.join r).real.Same (q.join r).real := by
  by_cases absolute : r.isAbsolute = true
  · rw [join_of_absolute absolute, join_of_absolute absolute]
    exact .refl _
  · cases converted : (p.join r).isConverted with
    | true =>
      obtain ⟨file, own, other, -⟩ :=
        same.real_join_of_converted (by simpa using absolute) converted
      rw [own, other]
      exact same.join file
    | false =>
      rw [real_eq_self converted, real_eq_self (same.isConverted_join r ▸ converted)]
      exact same.join r

end ComponentProjects.Path
