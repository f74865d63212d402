import ComponentProjects.Proofs.Path.Converted
import ComponentProjects.Snapshot

/-! Converted paths and the components behind them. A component is known by its last name, a
converted path by its text. The two agree but for names that begin with their only dot, paths that
run over more than one line, and components that are spelled with a dot behind a closing slash. -/
namespace ComponentProjects

namespace Component

theorem first?_of_named {word : List Char} (named : Path.isVoid word = false) (alone : Bool) :
    first? word alone = ofSegment? word := by
  have other : word ≠ [] ∧ word ≠ ['.'] := by simpa [Path.isVoid] using named
  rw [first?, if_neg other.1, if_neg other.2]

end Component

namespace Path

variable {p q : Path} {text word front stem extension : List Char} {words : List (List Char)}

theorem exists_last_word (text : List Char) : ∃ front word, text = front ++ word ∧ '/' ∉ word ∧
    (front = [] ∨ ∃ body, front = body ++ ['/']) := by
  induction text with
  | nil => exact ⟨[], [], rfl, List.not_mem_nil, .inl rfl⟩
  | cons c rest ih =>
    obtain ⟨front, word, rfl, plain, closed⟩ := ih
    rcases closed with rfl | ⟨body, rfl⟩
    · by_cases slash : c = '/'
      · exact ⟨['/'], word, by simp [slash], plain, .inr ⟨[], rfl⟩⟩
      · exact ⟨[], c :: word, rfl, by simp [Ne.symm slash, plain], .inl rfl⟩
    · exact ⟨c :: body ++ ['/'], word, by simp, plain, .inr ⟨c :: body, rfl⟩⟩

theorem exists_segments_last (plain : '/' ∉ word)
    (closed : front = [] ∨ ∃ body, front = body ++ ['/']) :
    ∃ words, segments (front ++ word) = words ++ [word] := by
  rcases closed with rfl | ⟨body, rfl⟩
  · exact ⟨[], segments_of_plain plain⟩
  · refine ⟨segments body, ?_⟩
    rw [List.append_assoc, List.singleton_append, segments_append_slash, segments_of_plain plain]

theorem getLast?_components (parted : segments p.text = words ++ [word])
    (named : isVoid word = false) : p.components.getLast? = Component.ofSegment? word := by
  obtain ⟨part, found⟩ : ∃ part, Component.ofSegment? word = some part := by
    refine Option.ne_none_iff_exists'.mp fun none => ?_
    rw [Component.ofSegment?_eq_none_iff.mp none] at named
    cases named
  cases words with
  | nil => simp [components_eq parted, Component.first?_of_named named, found]
  | cons first rest =>
    have all : segments p.text = first :: (rest ++ [word]) := parted
    simp [components_eq all, List.filterMap_append, found]

theorem extensionOf_of_stem (plain : '.' ∉ extension) (named : stem ≠ []) :
    extensionOf (stem ++ '.' :: extension) = some extension := by
  have others : ∀ c ∈ extension.reverse, decide (c ≠ '.') = true := fun c member =>
    decide_eq_true fun dot => plain (dot ▸ List.mem_reverse.mp member)
  have backward : (stem ++ '.' :: extension).reverse =
      extension.reverse ++ '.' :: stem.reverse := by
    simp
  obtain ⟨last, rest, turned⟩ : ∃ last rest, stem.reverse = last :: rest :=
    List.exists_cons_of_ne_nil (by simpa using named)
  unfold extensionOf
  rw [backward, List.dropWhile_append_of_pos others, List.takeWhile_append_of_pos others, turned]
  simp

theorem exists_stem_of_extensionOf (found : extensionOf word = some extension) :
    ∃ stem, stem ≠ [] ∧ word = stem ++ '.' :: extension := by
  unfold extensionOf at found
  split at found
  · rename_i first next rest dropped
    cases found
    have dot : first = '.' := by
      have stopped := List.head?_dropWhile_not (fun c => decide (c ≠ '.')) word.reverse
      rw [dropped] at stopped
      simpa using stopped
    have whole := List.takeWhile_append_dropWhile (p := fun c => decide (c ≠ '.'))
      (l := word.reverse)
    rw [dropped, dot] at whole
    refine ⟨(next :: rest).reverse, by simp, ?_⟩
    simpa using (congrArg List.reverse whole).symm
  · cases found

theorem isTemplated_iff_of_named (parted : segments q.text = words ++ [word])
    (named : isVoid word = false) :
    q.isTemplated = true ↔ ∃ stem, stem ≠ [] ∧ word = stem ++ componentEnding := by
  have last := getLast?_components parted named
  unfold isTemplated extension? fileName?
  rw [last, decide_eq_true_eq]
  constructor
  · intro component
    split at component
    · rename_i name found
      cases Component.text_of_ofSegment? found
      exact exists_stem_of_extensionOf component
    · cases component
  · rintro ⟨stem, proper, rfl⟩
    have long : 2 < (stem ++ componentEnding).length := by
      simp [componentEnding, templatedExtension]
    rw [Component.ofSegment?_of_long long]
    exact extensionOf_of_stem (by decide) proper

/-- A component whose last word is void is spelled as a directory. -/
theorem closed_of_isTemplated (component : q.isTemplated = true) (text : q.text = front ++ word)
    (closed : front = [] ∨ ∃ body, front = body ++ ['/']) (void : isVoid word = true) :
    q.endsWith "/" = true ∨ q.endsWith "/." = true := by
  have shape : word = [] ∨ word = ['.'] := by simpa [isVoid] using void
  rcases closed with rfl | ⟨body, rfl⟩
  · -- with nothing ahead of it the word is the whole path, and that names no file
    have own : q = ⟨word⟩ := by rw [← show q.text = word from text]
    rcases shape with rfl | rfl
    · subst own
      exact absurd component (by decide)
    · subst own
      exact absurd component (by decide)
  · rcases shape with rfl | rfl
    · left
      refine List.isSuffixOf_iff_suffix.mpr ?_
      rw [text, List.append_nil]
      exact List.suffix_append body _
    · right
      refine List.isSuffixOf_iff_suffix.mpr ?_
      rw [text, List.append_assoc]
      exact List.suffix_append body _

theorem endsWith_iff {ending : String} :
    q.endsWith ending = true ↔ ∃ stem, q.text = stem ++ ending.toList := by
  rw [endsWith, List.isSuffixOf_iff_suffix]
  exact ⟨fun ⟨stem, whole⟩ => ⟨stem, whole.symm⟩, fun ⟨stem, whole⟩ => ⟨stem, whole.symm⟩⟩

/-- Endings that close on different characters are not endings of one path. -/
theorem not_endsWith_of_getLast? {ending other : String} (given : q.endsWith ending = true)
    (apart : ending.toList.getLast? ≠ other.toList.getLast?)
    (some : ending.toList ≠ [] ∧ other.toList ≠ []) : q.endsWith other = false := by
  refine Bool.eq_false_iff.mpr fun also => apart ?_
  rw [← getLast?_of_endsWith some.1 given, getLast?_of_endsWith some.2 also]

theorem isConverted_withEnding_iff : (q.withEnding ".ts").isConverted = true ↔
    ∃ stem, q.text = stem ++ componentEnding ∧ stem ≠ [] ∧ '\n' ∉ stem := by
  rw [isConverted_iff]
  constructor
  · rintro ⟨real, found⟩
    obtain ⟨stem, whole, -, proper⟩ := realText?_eq_some_iff.mp found
    exact ⟨stem, List.append_cancel_right whole, proper⟩
  · rintro ⟨stem, whole, proper⟩
    refine ⟨q.text, realText?_eq_some_iff.mpr ⟨stem, ?_, whole, proper⟩⟩
    rw [← whole]
    rfl

theorem extension?_of_hidden (hidden : q.endsWith "/.widget" = true) : q.extension? = none := by
  obtain ⟨body, text⟩ := endsWith_iff.mp hidden
  have whole : q.text = (body ++ ['/']) ++ componentEnding := by
    rw [text, List.append_assoc]
    rfl
  have plain : '/' ∉ componentEnding := by decide
  obtain ⟨words, parted⟩ := exists_segments_last plain (.inr ⟨body, rfl⟩)
  rw [← whole] at parted
  rw [extension?, fileName?_of_segments parted rfl]
  rfl

theorem isTemplated_of_hidden (hidden : q.endsWith "/.widget" = true) : q.isTemplated = false := by
  rw [isTemplated, extension?_of_hidden hidden]
  rfl

/-- The files whose spelling with the script ending is not what they are: no component, though it
is converted, or a component, though it is not. -/
inductive Misread (q : Path) : Prop where
  /-- The ending is the whole name, so there is no component. -/
  | hidden (name : q.endsWith "/.widget" = true) (line : '\n' ∉ q.text)
  /-- The path of the component does not stay on one line. -/
  | broken (component : q.isTemplated = true) (name : q.endsWith ".widget" = true)
      (line : '\n' ∈ q.text)
  /-- The component's text ends in a step to itself. -/
  | dotted (component : q.isTemplated = true) (step : q.endsWith "/." = true)

theorem endsWith_of_isConverted_withEnding (converted : (q.withEnding ".ts").isConverted = true) :
    q.endsWith ".widget" = true ∧ '\n' ∉ q.text := by
  obtain ⟨stem, whole, -, line⟩ := isConverted_withEnding_iff.mp converted
  refine ⟨endsWith_iff.mpr ⟨stem, whole⟩, ?_⟩
  have ending : '\n' ∉ componentEnding := by decide
  simpa [whole, ending] using line

theorem isTemplated_of_isConverted (converted : (q.withEnding ".ts").isConverted = true)
    (named : q.endsWith "/.widget" = false) : q.isTemplated = true := by
  obtain ⟨stem, whole, some, -⟩ := isConverted_withEnding_iff.mp converted
  -- the ending has no slash in it, so the name is the stem's last word with the ending behind it
  obtain ⟨front, own, rfl, plain, closed⟩ := exists_last_word stem
  rw [List.append_assoc] at whole
  have noSlash : '/' ∉ own ++ componentEnding := by
    have ending : '/' ∉ componentEnding := by decide
    simp [plain, ending]
  obtain ⟨words, parted⟩ := exists_segments_last noSlash closed
  rw [← whole] at parted
  have proper : own ≠ [] := by
    rintro rfl
    rcases closed with rfl | ⟨body, rfl⟩
    · exact some rfl
    · refine Bool.eq_false_iff.mp named (endsWith_iff.mpr ⟨body, ?_⟩)
      rw [whole, List.append_assoc]
      rfl
  have shown : isVoid (own ++ componentEnding) = false := by
    obtain ⟨c, rest, rfl⟩ := List.exists_cons_of_ne_nil proper
    simp [isVoid, componentEnding, templatedExtension]
  exact (isTemplated_iff_of_named parted shown).mpr ⟨own, proper, rfl⟩

theorem exists_stem_of_isTemplated (component : q.isTemplated = true)
    (slash : q.endsWith "/" = false) (step : q.endsWith "/." = false) :
    ∃ stem, stem ≠ [] ∧ q.text = stem ++ componentEnding := by
  obtain ⟨front, word, text, plain, closed⟩ := exists_last_word q.text
  cases void : isVoid word with
  | true =>
    rcases closed_of_isTemplated component text closed void with given | given
    · exact absurd given (Bool.eq_false_iff.mp slash)
    · exact absurd given (Bool.eq_false_iff.mp step)
  | false =>
    obtain ⟨words, parted⟩ := exists_segments_last plain closed
    rw [← text] at parted
    obtain ⟨stem, proper, rfl⟩ := (isTemplated_iff_of_named parted void).mp component
    refine ⟨front ++ stem, by simp [proper], ?_⟩
    rw [text, List.append_assoc]

theorem isConverted_withEnding_iff_isTemplated :
    ((q.withEnding ".ts").isConverted = true ↔ q.isTemplated = true ∧ q.endsWith "/" = false) ↔
      ¬ q.Misread := by
  constructor
  · rintro agree (⟨name, line⟩ | ⟨component, name, line⟩ | ⟨component, step⟩)
    case hidden =>
      obtain ⟨body, text⟩ := endsWith_iff.mp name
      have converted : (q.withEnding ".ts").isConverted = true := by
        refine isConverted_withEnding_iff.mpr ⟨body ++ ['/'], ?_, by simp, ?_⟩
        · rw [text, List.append_assoc]
          rfl
        · rw [text] at line
          have clear : '\n' ∉ body := fun member => line (List.mem_append_left _ member)
          simp [clear]
      exact absurd (agree.mp converted).1 (Bool.eq_false_iff.mp (isTemplated_of_hidden name))
    case broken =>
      have slash : q.endsWith "/" = false :=
        not_endsWith_of_getLast? name (by decide) (by decide)
      have converted := agree.mpr ⟨component, slash⟩
      exact (endsWith_of_isConverted_withEnding converted).2 line
    case dotted =>
      have slash : q.endsWith "/" = false :=
        not_endsWith_of_getLast? step (by decide) (by decide)
      have name : q.endsWith ".widget" = false :=
        not_endsWith_of_getLast? step (by decide) (by decide)
      have converted := agree.mpr ⟨component, slash⟩
      exact Bool.eq_false_iff.mp name (endsWith_of_isConverted_withEnding converted).1
  · intro read
    constructor
    · intro converted
      obtain ⟨name, line⟩ := endsWith_of_isConverted_withEnding converted
      have named : q.endsWith "/.widget" = false :=
        Bool.eq_false_iff.mpr fun hidden => read (.hidden hidden line)
      exact ⟨isTemplated_of_isConverted converted named,
        not_endsWith_of_getLast? name (by decide) (by decide)⟩
    · rintro ⟨component, slash⟩
      have step : q.endsWith "/." = false :=
        Bool.eq_false_iff.mpr fun step => read (.dotted component step)
      obtain ⟨stem, proper, whole⟩ := exists_stem_of_isTemplated component slash step
      refine isConverted_withEnding_iff.mpr ⟨stem, whole, proper, fun member => ?_⟩
      refine read (.broken component (endsWith_iff.mpr ⟨stem, whole⟩) ?_)
      rw [whole]
      exact List.mem_append_left _ member

theorem exists_withEnding_of_isConverted (converted : p.isConverted = true) :
    ∃ q : Path, p = q.withEnding ".ts" := by
  obtain ⟨stem, text⟩ := endsWith_iff.mp (endsWith_of_isConverted converted)
  exact ⟨⟨stem⟩, by rw [withEnding, ← text]⟩

end Path

namespace Snapshot

/-- What stands behind a converted path is read as a component file, unless the ending is its whole
name: then it is read as it is, in no dialect. -/
theorem ofDocument_real {p : Path} (converted : p.isConverted = true)
    (preprocess : Preprocessor) (version : Int) (content : String) (origin : Origin) :
    ofDocument preprocess ⟨p.real, version, content⟩ origin =
      if p.real.endsWith "/.widget" then
        pure ⟨p.real, version, content, .unknown, origin, true⟩
      else (fun c => ⟨p.real, version, c.text, c.dialect, origin, c.ok⟩) <$>
        preprocess.convert p.real content := by
  obtain ⟨q, rfl⟩ := Path.exists_withEnding_of_isConverted converted
  rw [Path.real_withEnding converted]
  cases hidden : q.endsWith "/.widget" with
  | true =>
    have plain : q.isTemplated = false := Path.isTemplated_of_hidden hidden
    have dialect : Dialect.ofPath q = .unknown := by
      rw [Dialect.ofPath_eq, Path.extension?_of_hidden hidden]
      rfl
    simp [ofDocument, plain, dialect]
  | false =>
    have component := Path.isTemplated_of_isConverted converted hidden
    simp only [ofDocument, component, if_true]
    rfl

end Snapshot

namespace Path

/-- A converted path is a component file's path with the script ending behind it, and the component
file is what stands for it, but for the files that are misread. -/
theorem isConverted_iff_unless_misread (p : Path) :
    (p.isConverted = true → ∃ q : Path, p = q.withEnding ".ts") ∧
    (∀ q : Path, p = q.withEnding ".ts" →
      ((p.isConverted = true ↔ q.isTemplated = true ∧ q.endsWith "/" = false) ↔ ¬ q.Misread) ∧
        (p.isConverted = true → p.real = q)) ∧
    (p.isConverted = false → p.real = p) ∧ p.real.real = p.real ∧ p.real.isConverted = false ∧
    (p.isConverted = true → ∀ preprocess version content origin,
      Snapshot.ofDocument preprocess ⟨p.real, version, content⟩ origin =
        if p.real.endsWith "/.widget" then
          pure ⟨p.real, version, content, .unknown, origin, true⟩
        else (fun c => ⟨p.real, version, c.text, c.dialect, origin, c.ok⟩) <$>
          preprocess.convert p.real content) := by
  refine ⟨exists_withEnding_of_isConverted, ?_, real_eq_self, p.real_real, p.isConverted_real,
    Snapshot.ofDocument_real⟩
  rintro q rfl
  exact ⟨isConverted_withEnding_iff_isTemplated, real_withEnding⟩

/-- A hidden file is misread: its spelling with the script ending leads to it, though it is no
component. -/
theorem isConverted_hidden :
    let hidden : Path := .ofString "/p/.widget"
    let script := hidden.withEnding ".ts"
    script.isConverted = true ∧ script.real = hidden ∧ hidden.isTemplated = false ∧
      hidden.Misread ∧ (∀ preprocess content,
        Snapshot.ofDocument preprocess ⟨hidden, 0, content⟩ .disk =
          pure ⟨hidden, 0, content, .unknown, .disk, true⟩) ∧ hidden.real = hidden := by
  intro hidden script
  obtain ⟨-, given, -, idle, -, read⟩ := isConverted_iff_unless_misread script
  have converted : script.isConverted = true := by decide
  have plain : hidden.isTemplated = false := by decide
  have back : script.real = hidden := (given hidden rfl).2 converted
  refine ⟨converted, back, plain, ?_, fun preprocess content => ?_, ?_⟩
  · by_contra other
    exact absurd (((given hidden rfl).1.mpr other).mp converted).1 (Bool.eq_false_iff.mp plain)
  · have served := read converted preprocess 0 content .disk
    rwa [back, if_pos (by decide)] at served
  · rwa [back] at idle

end Path

end ComponentProjects
