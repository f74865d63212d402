import ComponentProjects.Proofs.Glob.Base

/-! What a glob takes, said segment by segment. A word of a pattern stands for one segment of a path
and a double star for any number of them. Unless a pattern ends in a double star, it takes a path
just when its words stand for the front segments and the glob may close ahead of the others. -/
namespace ComponentProjects
namespace Glob

def doubleStar : List Char := ['*', '*']

/-- A star of a word stands for any characters of a segment, a question mark for one of them, and
every other character for itself. -/
def FitsWord : List Char → List Char → Prop
  | [], segment => segment = []
  | c :: word, segment =>
    if c = '*' then ∃ run back, segment = run ++ back ∧ FitsWord word back
    else ∃ d back, segment = d :: back ∧ (c = '?' ∨ d = c) ∧ FitsWord word back

/-- The words of a pattern stand for segments in their order. -/
def Fits : List (List Char) → List (List Char) → Prop
  | [], parts => parts = []
  | word :: words, parts =>
    if word = doubleStar then ∃ skipped back, parts = skipped ++ back ∧ Fits words back
    else ∃ segment back, parts = segment :: back ∧ FitsWord word segment ∧ Fits words back

def Close.leaves : Close → List (List Char) → Prop
  | .here, parts => parts = []
  | .beneath, parts => ∀ segment ∈ parts, '\n' ∉ segment

variable {close : Close} {marks : List Mark} {word segment text : List Char}
  {words parts front back : List (List Char)} {next : List Char → Bool}

/-! Texts and their segments -/

theorem joined_segments (text : List Char) : joined (segments text) = text := by
  induction text with
  | nil => rfl
  | cons c rest ih =>
    obtain ⟨word, words, found⟩ := exists_segments_eq_cons rest
    rw [found] at ih
    by_cases slash : c = '/'
    · simp [segments, slash, found, joined_cons_cons, ih]
    · cases words with
      | nil => simpa [segments, slash, found, joined] using ih
      | cons other words =>
        rw [joined_cons_cons] at ih
        simp [segments, slash, found, joined_cons_cons, ih]

theorem segments_withSlashes_append (plain : ∀ word ∈ front, '/' ∉ word) (rest : List Char) :
    segments (withSlashes front ++ rest) = front ++ segments rest := by
  induction front with
  | nil => rfl
  | cons word front ih =>
    have own := segments_of_plain (plain word List.mem_cons_self)
    have others := ih fun other member => plain other (.tail _ member)
    simp [segments_append_slash, own, others]

/-- Segments that are followed by others are those of a part of the text that ends in a slash. -/
theorem exists_of_segments_append (parted : segments text = front ++ back) (some : back ≠ []) :
    ∃ rest, text = withSlashes front ++ rest ∧ segments rest = back := by
  have plain : ∀ word ∈ front ++ back, '/' ∉ word := fun word member =>
    plain_of_mem_segments (parted ▸ member)
  have rest : segments (joined back) = back :=
    segments_joined some fun word member => plain word (List.mem_append_right _ member)
  refine ⟨joined back, ?_, rest⟩
  have whole := segments_withSlashes_append
    (fun word member => plain word (List.mem_append_left _ member)) (joined back)
  rw [rest, ← parted] at whole
  rw [← joined_segments text, ← whole, joined_segments]

/-! What marks take -/

theorem takes_char_iff {c : Char} : takes close (.char c :: marks) text = true ↔
    ∃ rest, text = c :: rest ∧ takes close marks rest = true := by
  constructor
  · exact exists_of_takes_char
  · rintro ⟨rest, rfl, taken⟩
    simpa [takes, Mark.takes, afterOne] using taken

theorem takes_one_iff : takes close (.one :: marks) text = true ↔
    ∃ c rest, text = c :: rest ∧ c ≠ '/' ∧ takes close marks rest = true := by
  cases text with
  | nil => simp [takes, Mark.takes, afterOne]
  | cons c rest => simp [takes, Mark.takes, afterOne]

theorem afterRun_iff : afterRun next text = true ↔
    ∃ run rest, text = run ++ rest ∧ '/' ∉ run ∧ next rest = true := by
  induction text with
  | nil => simp [afterRun]
  | cons c text ih =>
    simp only [afterRun, Bool.or_eq_true, Bool.and_eq_true, decide_eq_true_eq, ih]
    constructor
    · rintro (here | ⟨other, run, rest, rfl, plain, later⟩)
      · exact ⟨[], _, rfl, by simp, here⟩
      · exact ⟨c :: run, rest, rfl, by simp [Ne.symm other, plain], later⟩
    · rintro ⟨run, rest, whole, plain, later⟩
      cases run with
      | nil => exact .inl (by simpa [whole] using later)
      | cons d run =>
        simp only [List.cons_append, List.cons.injEq] at whole
        obtain ⟨rfl, rfl⟩ := whole
        obtain ⟨other, plain⟩ : ¬ '/' = c ∧ '/' ∉ run := by simpa using plain
        exact .inr ⟨Ne.symm other, run, rest, rfl, plain, later⟩

/-- A word's marks take a text up to a slash that the word does not stand for. -/
theorem takes_word_iff (plain : '/' ∉ word) :
    takes close (word.map markOf ++ marks) text = true ↔ ∃ segment rest, text = segment ++ rest ∧
      '/' ∉ segment ∧ FitsWord word segment ∧ takes close marks rest = true := by
  induction word generalizing text with
  | nil =>
    constructor
    · intro taken
      exact ⟨[], text, rfl, by simp, rfl, taken⟩
    · rintro ⟨segment, rest, rfl, -, rfl, taken⟩
      exact taken
  | cons c word ih =>
    obtain ⟨slash, plain⟩ : ¬ '/' = c ∧ '/' ∉ word := by simpa using plain
    have later := fun text => @ih text plain
    simp only [List.map_cons, List.cons_append, FitsWord]
    by_cases star : c = '*'
    · simp only [markOf, star, if_true, takes, Mark.takes, afterRun_iff, later]
      constructor
      · rintro ⟨run, _, rfl, own, segment, rest, rfl, also, fits, taken⟩
        exact ⟨run ++ segment, rest, by simp, by simp [own, also], ⟨run, segment, rfl, fits⟩, taken⟩
      · rintro ⟨_, rest, rfl, whole, ⟨run, segment, rfl, fits⟩, taken⟩
        obtain ⟨own, also⟩ : '/' ∉ run ∧ '/' ∉ segment := by simpa using whole
        exact ⟨run, segment ++ rest, by simp, own, segment, rest, rfl, also, fits, taken⟩
    · -- a question mark and a plain character each take one character that is no slash
      have one : takes close (markOf c :: (word.map markOf ++ marks)) text = true ↔ ∃ d rest,
          text = d :: rest ∧ d ≠ '/' ∧ (c = '?' ∨ d = c) ∧
            takes close (word.map markOf ++ marks) rest = true := by
        by_cases question : c = '?'
        · simp [markOf, question, takes_one_iff]
        · simp only [markOf, star, question, if_false, takes_char_iff, false_or]
          constructor
          · rintro ⟨rest, rfl, taken⟩
            exact ⟨c, rest, rfl, Ne.symm slash, rfl, taken⟩
          · rintro ⟨_, rest, rfl, -, rfl, taken⟩
            exact ⟨rest, rfl, taken⟩
      simp only [one, later, star, if_false]
      constructor
      · rintro ⟨d, _, rfl, other, stands, segment, rest, rfl, also, fits, taken⟩
        exact ⟨d :: segment, rest, rfl, by simp [Ne.symm other, also],
          ⟨d, segment, rfl, stands, fits⟩, taken⟩
      · rintro ⟨_, rest, rfl, whole, ⟨d, segment, rfl, stands, fits⟩, taken⟩
        obtain ⟨other, also⟩ : ¬ '/' = d ∧ '/' ∉ segment := by simpa using whole
        exact ⟨d, segment ++ rest, rfl, Ne.symm other, stands, segment, rest, rfl, also, fits,
          taken⟩

/-- The flag says that a segment begins here, so that none need be skipped. -/
theorem afterSegments_iff {start : Bool} : afterSegments next start text = true ↔
    ∃ skipped rest, text = withSlashes skipped ++ rest ∧ (∀ word ∈ skipped, '/' ∉ word) ∧
      (start = false → skipped ≠ []) ∧ next rest = true := by
  induction text generalizing start with
  | nil =>
    simp only [afterSegments, Bool.and_eq_true]
    constructor
    · rintro ⟨rfl, here⟩
      exact ⟨[], [], rfl, by simp, by simp, here⟩
    · rintro ⟨skipped, rest, whole, -, begun, here⟩
      cases skipped with
      | nil =>
        obtain rfl : rest = [] := whole.symm
        exact ⟨by simpa using begun, here⟩
      | cons word skipped => simp at whole
  | cons c text ih =>
    simp only [afterSegments, Bool.or_eq_true, Bool.and_eq_true, ih]
    constructor
    · rintro (⟨rfl, here⟩ | ⟨skipped, rest, rfl, plain, begun, later⟩)
      · exact ⟨[], _, rfl, by simp, by simp, here⟩
      · by_cases slash : c = '/'
        · exact ⟨[] :: skipped, rest, by simp [slash], by simpa using plain, by simp,
            later⟩
        · cases skipped with
          | nil => exact absurd rfl (begun (by simpa using slash))
          | cons word skipped =>
            refine ⟨(c :: word) :: skipped, rest, by simp, ?_, by simp, later⟩
            simpa [Ne.symm slash] using plain
    · rintro ⟨skipped, rest, whole, plain, begun, later⟩
      cases skipped with
      | nil =>
        obtain rfl : rest = c :: text := whole.symm
        exact .inl ⟨by simpa using begun, later⟩
      | cons word skipped =>
        cases word with
        | nil =>
          obtain ⟨rfl, rfl⟩ : c = '/' ∧ text = withSlashes skipped ++ rest := by
            simpa using whole
          exact .inr ⟨skipped, rest, rfl, fun w member => plain w (.tail _ member), by simp, later⟩
        | cons d word =>
          obtain ⟨rfl, rfl⟩ : c = d ∧ text = withSlashes (word :: skipped) ++ rest := by
            simpa using whole
          obtain ⟨⟨slash, own⟩, others⟩ :
              (¬ '/' = c ∧ '/' ∉ word) ∧ ∀ w ∈ skipped, '/' ∉ w := by simpa using plain
          exact .inr ⟨word :: skipped, rest, rfl, by simpa [own] using others, by simp, later⟩

theorem accepts_iff (plain : '/' ∉ segment) (rest : List Char) : close.accepts rest = true ↔
    ∃ parts, segments (segment ++ rest) = segment :: parts ∧ close.leaves parts := by
  have own := segments_of_plain plain
  cases rest with
  | nil =>
    rw [List.append_nil, own]
    cases close <;> simp [Close.accepts, Close.leaves]
  | cons c rest =>
    by_cases slash : c = '/'
    · rw [slash, segments_append_slash, own]
      have line := mem_iff_mem_segments (c := '\n') (by decide) rest
      obtain ⟨word, words, found⟩ := exists_segments_eq_cons rest
      cases close with
      | here => simp [Close.accepts, Close.leaves, found]
      | beneath => simp [Close.accepts, Close.leaves, line]
    · have left : close.accepts (c :: rest) = false := by
        cases close <;> simp [Close.accepts, slash]
      simp only [left, Bool.false_eq_true, false_iff]
      rintro ⟨parts, parted, -⟩
      -- the segment would go on with a character that is no slash
      have whole := joined_segments (segment ++ c :: rest)
      rw [parted] at whole
      cases parts with
      | nil => simp [joined] at whole
      | cons other parts => simp [joined_cons_cons, Ne.symm slash] at whole

theorem ne_nil_of_fits (some : words ≠ []) (last : words.getLast? ≠ .some doubleStar)
    (fits : Fits words parts) : parts ≠ [] := by
  induction words generalizing parts with
  | nil => contradiction
  | cons word words ih =>
    rw [Fits] at fits
    split at fits
    · rename_i double
      obtain ⟨skipped, back, rfl, rest⟩ := fits
      cases words with
      | nil => simp [double] at last
      | cons next words =>
        have more := ih (by simp) (by simpa using last) rest
        simp [more]
    · obtain ⟨segment, back, rfl, -, -⟩ := fits
      simp

/-! The marks of words -/

theorem marksOf_doubleStar (words : List (List Char)) :
    marksOf (doubleStar :: words) = .segments :: marksOf words := if_pos rfl

theorem marksOf_singleton (single : word ≠ doubleStar) :
    marksOf [word] = word.map markOf ++ marksOf [] := by
  simp [marksOf, show word ≠ ['*', '*'] from single]

theorem marksOf_cons_cons (single : word ≠ doubleStar) (next : List Char)
    (words : List (List Char)) :
    marksOf (word :: next :: words) = word.map markOf ++ .char '/' :: marksOf (next :: words) :=
  if_neg single

theorem takes_doubleStar_iff : takes close (marksOf (doubleStar :: words)) text = true ↔
    ∃ skipped rest, text = withSlashes skipped ++ rest ∧ (∀ word ∈ skipped, '/' ∉ word) ∧
      takes close (marksOf words) rest = true := by
  rw [marksOf_doubleStar]
  simp [takes, Mark.takes, afterSegments_iff]

theorem takes_last_iff (single : word ≠ doubleStar) (plain : '/' ∉ word) :
    takes close (marksOf [word]) text = true ↔
      ∃ segment back, segments text = segment :: back ∧ FitsWord word segment ∧
        close.leaves back := by
  rw [marksOf_singleton single, takes_word_iff plain]
  constructor
  · rintro ⟨segment, rest, rfl, own, fits, taken⟩
    obtain ⟨back, parted, leaves⟩ := (accepts_iff own rest).mp taken
    exact ⟨segment, back, parted, fits, leaves⟩
  · rintro ⟨segment, back, parted, fits, leaves⟩
    have own : '/' ∉ segment := plain_of_mem_segments (parted ▸ List.mem_cons_self)
    obtain ⟨rest, rfl⟩ : ∃ rest, text = segment ++ rest := by
      rw [← joined_segments text, parted]
      cases back with
      | nil => exact ⟨[], by simp [joined]⟩
      | cons other back => exact ⟨_, joined_cons_cons segment other back⟩
    exact ⟨segment, rest, rfl, own, fits, (accepts_iff own rest).mpr ⟨back, parted, leaves⟩⟩

theorem takes_cons_iff (single : word ≠ doubleStar) (plain : '/' ∉ word) {next : List Char} :
    takes close (marksOf (word :: next :: words)) text = true ↔
      ∃ segment rest, text = segment ++ '/' :: rest ∧ '/' ∉ segment ∧ FitsWord word segment ∧
        takes close (marksOf (next :: words)) rest = true := by
  rw [marksOf_cons_cons single, takes_word_iff plain]
  constructor
  · rintro ⟨segment, _, rfl, own, fits, taken⟩
    obtain ⟨rest, rfl, taken⟩ := takes_char_iff.mp taken
    exact ⟨segment, rest, rfl, own, fits, taken⟩
  · rintro ⟨segment, rest, rfl, own, fits, taken⟩
    exact ⟨segment, _, rfl, own, fits, takes_char_iff.mpr ⟨rest, rfl, taken⟩⟩

/-! The segments of words -/

/-- The words stand for front segments of a text, and a glob may close ahead of the others. -/
def Splits (close : Close) (words : List (List Char)) (text : List Char) : Prop :=
  ∃ front back, segments text = front ++ back ∧ Fits words front ∧ close.leaves back

theorem splits_singleton (single : word ≠ doubleStar) : Splits close [word] text ↔
    ∃ segment back, segments text = segment :: back ∧ FitsWord word segment ∧
      close.leaves back := by
  simp only [Splits, Fits, if_neg single]
  constructor
  · rintro ⟨_, back, parted, ⟨segment, _, rfl, fits, rfl⟩, leaves⟩
    exact ⟨segment, back, parted, fits, leaves⟩
  · rintro ⟨segment, back, parted, fits, leaves⟩
    exact ⟨[segment], back, parted, ⟨segment, [], rfl, fits, rfl⟩, leaves⟩

/-- The text goes on behind front segments if words that stand for some are to follow. -/
theorem exists_of_fits (some : words ≠ []) (last : words.getLast? ≠ .some doubleStar)
    (fits : Fits words front) {skipped : List (List Char)}
    (parted : segments text = skipped ++ (front ++ back)) :
    ∃ rest, text = withSlashes skipped ++ rest ∧ (∀ segment ∈ skipped, '/' ∉ segment) ∧
      segments rest = front ++ back := by
  have more : front ++ back ≠ [] := by simp [ne_nil_of_fits some last fits]
  obtain ⟨rest, whole, behind⟩ := exists_of_segments_append parted more
  refine ⟨rest, whole, fun segment member => ?_, behind⟩
  have inside : segment ∈ segments text := by simp [parted, member]
  exact plain_of_mem_segments inside

theorem splits_doubleStar (some : words ≠ []) (last : words.getLast? ≠ .some doubleStar) :
    Splits close (doubleStar :: words) text ↔
      ∃ skipped rest, text = withSlashes skipped ++ rest ∧ (∀ word ∈ skipped, '/' ∉ word) ∧
        Splits close words rest := by
  simp only [Splits, Fits, if_true]
  constructor
  · rintro ⟨_, back, parted, ⟨skipped, front, rfl, fits⟩, leaves⟩
    rw [List.append_assoc] at parted
    obtain ⟨rest, whole, plain, behind⟩ := exists_of_fits some last fits parted
    exact ⟨skipped, rest, whole, plain, front, back, behind, fits, leaves⟩
  · rintro ⟨skipped, rest, rfl, plain, front, back, parted, fits, leaves⟩
    refine ⟨skipped ++ front, back, ?_, ⟨skipped, front, rfl, fits⟩, leaves⟩
    rw [segments_withSlashes_append plain, parted, List.append_assoc]

theorem splits_cons (single : word ≠ doubleStar) (some : words ≠ [])
    (last : words.getLast? ≠ .some doubleStar) : Splits close (word :: words) text ↔
      ∃ segment rest, text = segment ++ '/' :: rest ∧ '/' ∉ segment ∧ FitsWord word segment ∧
        Splits close words rest := by
  simp only [Splits, Fits, if_neg single]
  constructor
  · rintro ⟨_, back, parted, ⟨segment, front, rfl, here, fits⟩, leaves⟩
    have more : segments text = [segment] ++ (front ++ back) := parted
    obtain ⟨rest, whole, plain, behind⟩ := exists_of_fits some last fits more
    refine ⟨segment, rest, by simpa using whole, by simpa using plain, here, ?_⟩
    exact ⟨front, back, behind, fits, leaves⟩
  · rintro ⟨segment, rest, rfl, plain, here, front, back, parted, fits, leaves⟩
    refine ⟨segment :: front, back, ?_, ⟨segment, front, rfl, here, fits⟩, leaves⟩
    simp [segments_append_slash, segments_of_plain plain, parted]

theorem takes_marksOf_iff (some : words ≠ []) (plain : ∀ word ∈ words, '/' ∉ word)
    (last : words.getLast? ≠ .some doubleStar) :
    takes close (marksOf words) text = true ↔ Splits close words text := by
  induction words generalizing text with
  | nil => contradiction
  | cons word words ih =>
    have own : '/' ∉ word := plain word List.mem_cons_self
    cases words with
    | nil =>
      have single : word ≠ doubleStar := by simpa using last
      rw [takes_last_iff single own, splits_singleton single]
    | cons next words =>
      have ends : (next :: words).getLast? ≠ .some doubleStar := by simpa using last
      have later := fun text => @ih text (by simp) (fun w member => plain w (.tail _ member)) ends
      by_cases double : word = doubleStar
      · rw [double, takes_doubleStar_iff, splits_doubleStar (by simp) ends]
        simp only [later]
      · rw [takes_cons_iff double own, splits_cons double (by simp) ends]
        simp only [later]

/-! Include patterns -/

end Glob
end ComponentProjects
