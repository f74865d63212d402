import ComponentProjects.Proofs.Glob.Fitting

/-! What exclude patterns leave out: the paths that a pattern stands for and whatever lies beneath
them, as far as no name behind the match breaks its line. A pattern that ends in a double star goes
on right behind a slash and closes only ahead of one, so it leaves out nothing of this kind. -/
namespace ComponentProjects
namespace Glob

variable {close : Close} {text front : List Char} {words : List (List Char)}

theorem exists_slash_of_withSlashes (some : words ≠ []) :
    ∃ body, withSlashes words = body ++ ['/'] := ⟨joined words, withSlashes_eq some⟩

/-- A pattern that ends in a double star closes behind a slash, or else where the text begins. -/
theorem exists_of_takes_open (last : words.getLast? = some doubleStar)
    (plain : ∀ word ∈ words, '/' ∉ word) (taken : takes close (marksOf words) text = true) :
    ∃ front rest, text = front ++ rest ∧ close.accepts rest = true ∧
      ((∃ body, front = body ++ ['/']) ∨ front = [] ∧ ∀ word ∈ words, word = doubleStar) := by
  induction words generalizing text with
  | nil => cases last
  | cons word words ih =>
    have own : '/' ∉ word := plain word List.mem_cons_self
    have others : ∀ w ∈ words, '/' ∉ w := fun w member => plain w (.tail _ member)
    cases words with
    | nil =>
      obtain rfl : word = doubleStar := by simpa using last
      obtain ⟨skipped, rest, rfl, -, accepted⟩ := takes_doubleStar_iff.mp taken
      refine ⟨withSlashes skipped, rest, rfl, accepted, ?_⟩
      by_cases none : skipped = []
      · exact .inr (by simp [none])
      · exact .inl (exists_slash_of_withSlashes none)
    | cons next words =>
      have ends : (next :: words).getLast? = some doubleStar := by simpa using last
      by_cases double : word = doubleStar
      · rw [double] at taken
        obtain ⟨skipped, rest, rfl, -, taken⟩ := takes_doubleStar_iff.mp taken
        obtain ⟨front, rest, rfl, accepted, closed⟩ := ih ends others taken
        refine ⟨withSlashes skipped ++ front, rest, by simp, accepted, ?_⟩
        rcases closed with ⟨body, rfl⟩ | ⟨rfl, all⟩
        · exact .inl ⟨withSlashes skipped ++ body, by simp⟩
        · by_cases none : skipped = []
          · exact .inr (by simpa [none, double] using all)
          · exact .inl (by simpa using exists_slash_of_withSlashes none)
      · obtain ⟨segment, rest, rfl, -, -, taken⟩ := (takes_cons_iff double own).mp taken
        obtain ⟨front, rest, rfl, accepted, closed⟩ := ih ends others taken
        refine ⟨segment ++ '/' :: front, rest, by simp, accepted, .inl ?_⟩
        rcases closed with ⟨body, rfl⟩ | ⟨rfl, -⟩
        · exact ⟨segment ++ '/' :: body, by simp⟩
        · exact ⟨segment, rfl⟩

theorem takes_doubleStars (all : ∀ word ∈ words, word = doubleStar)
    (accepted : close.accepts text = true) : takes close (marksOf words) text = true := by
  induction words with
  | nil => exact accepted
  | cons word words ih =>
    obtain ⟨rfl, others⟩ : word = doubleStar ∧ ∀ w ∈ words, w = doubleStar := by simpa using all
    exact takes_doubleStar_iff.mpr ⟨[], text, rfl, by simp, ih others⟩

/-- Of the paths without needless slashes, a pattern that ends in a double star takes none, or if it
is made of nothing else those that its first segment need not be skipped for. -/
theorem takes_open_iff (last : words.getLast? = some doubleStar)
    (plain : ∀ word ∈ words, '/' ∉ word) (doubled : ¬ ['/', '/'] <:+: text)
    (closed : text.getLast? ≠ some '/') : takes .beneath (marksOf words) text = true ↔
      (∀ word ∈ words, word = doubleStar) ∧ Close.beneath.accepts text = true := by
  constructor
  · intro taken
    obtain ⟨front, rest, rfl, accepted, slash⟩ := exists_of_takes_open last plain taken
    rcases slash with ⟨body, rfl⟩ | ⟨rfl, all⟩
    · cases rest with
      | nil => simp at closed
      | cons c rest =>
        obtain ⟨rfl, -⟩ : c = '/' ∧ '\n' ∉ rest := by simpa [Close.accepts] using accepted
        exact absurd ⟨body, rest, by simp⟩ doubled
    · exact ⟨all, accepted⟩
  · rintro ⟨all, accepted⟩
    exact takes_doubleStars all accepted

theorem beneath_accepts_iff : Close.beneath.accepts text = true ↔
    text = [] ∨ text.head? = some '/' ∧ '\n' ∉ text := by
  cases text with
  | nil => simp [Close.accepts]
  | cons c rest =>
    simp only [Close.accepts, List.mem_cons]
    constructor
    · intro accepted
      obtain ⟨rfl, line⟩ : c = '/' ∧ '\n' ∉ rest := by simpa using accepted
      exact .inr ⟨rfl, by simp [line]⟩
    · rintro (none | ⟨root, line⟩)
      · contradiction
      · obtain rfl : c = '/' := by simpa using root
        simpa using line

/-- Of the paths without backslashes and needless slashes, an exclude pattern takes those that its
words stand for, and what is beneath them on the same line. One that ends in a double star takes
none, unless it is made of nothing else. -/
theorem ofExclude_isMatch_iff (dir : Path) (pattern : String) (p : Path) (plain : '\\' ∉ p.text)
    (doubled : ¬ ['/', '/'] <:+: p.text) (closed : p.text.getLast? ≠ some '/') :
    let words := segments (withoutClosingSlashes (absoluteText dir pattern))
    let taken := (ofExclude dir pattern).isMatch p
    (words.getLast? ≠ some doubleStar → (taken = true ↔ ∃ front back,
      segments p.text = front ++ back ∧ Fits words front ∧ ∀ segment ∈ back, '\n' ∉ segment)) ∧
    (words.getLast? = some doubleStar → (taken = true ↔ (∀ word ∈ words, word = doubleStar) ∧
      (p.text = [] ∨ p.isAbsolute = true ∧ '\n' ∉ p.text))) := by
  intro words taken
  have some : words ≠ [] := by
    obtain ⟨word, others, found⟩ :=
      exists_segments_eq_cons (withoutClosingSlashes (absoluteText dir pattern))
    simp [words, found]
  have own : ∀ word ∈ words, '/' ∉ word := fun _ => plain_of_mem_segments
  have marks : taken = takes .beneath (marksOf words) p.text := by
    rw [show taken = (ofExclude dir pattern).isMatch p from rfl, isMatch_eq, slashed_of_plain plain]
    rfl
  rw [marks]
  constructor
  · exact takes_marksOf_iff some own
  · intro last
    rw [takes_open_iff last own doubled closed, beneath_accepts_iff]
    simp [Path.isAbsolute]

/-- Nothing beneath a directory is left out by its name with a double star behind it, though the
words stand for every path beneath it. -/
theorem ofExclude_isMatch_contents :
    let words := segments (withoutClosingSlashes (absoluteText (.ofString "/p") "dist/**"))
    let p := Path.ofString "/p/dist/a.ts"
    '\\' ∉ p.text ∧ ¬ ['/', '/'] <:+: p.text ∧ p.text.getLast? ≠ some '/' ∧
      (ofExclude (.ofString "/p") "dist/**").isMatch p = false ∧ Fits words (segments p.text) := by
  intro words p
  have plain : '\\' ∉ p.text := by decide
  have doubled : ¬ ['/', '/'] <:+: p.text := by
    simp [p, Path.ofString, List.infix_cons_iff]
  have closed : p.text.getLast? ≠ some '/' := by decide
  obtain ⟨-, whenOpen⟩ := ofExclude_isMatch_iff (.ofString "/p") "dist/**" p plain doubled closed
  have other : ¬ ∀ word ∈ words, word = doubleStar := by decide
  refine ⟨plain, doubled, closed, ?_, ?_⟩
  · exact Bool.eq_false_iff.mpr fun taken => other ((whenOpen (by decide)).mp taken).1
  · have given : words = [[], ['p'], ['d', 'i', 's', 't'], doubleStar] := by decide
    have parted : segments p.text = [[], ['p'], ['d', 'i', 's', 't'], ['a', '.', 't', 's']] := by
      decide
    simp [given, parted, Fits, FitsWord, doubleStar]

end Glob
end ComponentProjects
