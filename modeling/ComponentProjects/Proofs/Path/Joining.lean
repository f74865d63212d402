import Mathlib.Data.List.Forall2
import ComponentProjects.Proofs.Path.Sameness

/-! Paths read from a directory. What a joined path names is what the directory names and then what
the words behind it name, so it does not matter how the directory is spelled. The directories that
enclose a path go by its components alone. -/
namespace ComponentProjects

theorem exists_segments_eq_cons (text : List Char) :
    ∃ word words, segments text = word :: words := by
  cases text with
  | nil => exact ⟨[], [], rfl⟩
  | cons c rest =>
    simp only [segments]
    split
    · exact ⟨_, _, rfl⟩
    · split <;> exact ⟨_, _, rfl⟩

/-- A slash parts the words before it from those behind it. -/
theorem segments_append_slash (front rest : List Char) :
    segments (front ++ '/' :: rest) = segments front ++ segments rest := by
  induction front with
  | nil => simp [segments]
  | cons c front ih =>
    by_cases slash : c = '/'
    · simp [segments, slash, ih]
    · obtain ⟨word, words, found⟩ := exists_segments_eq_cons front
      simp [segments, slash, ih, found]

theorem eq_nil_of_segments {text : List Char} (words : segments text = [[]]) : text = [] := by
  cases text with
  | nil => rfl
  | cons c rest =>
    obtain ⟨word, others, found⟩ := exists_segments_eq_cons rest
    by_cases slash : c = '/' <;> simp [segments, slash, found] at words

theorem mem_iff_mem_segments {c : Char} (other : c ≠ '/') (text : List Char) :
    c ∈ text ↔ ∃ word ∈ segments text, c ∈ word := by
  induction text with
  | nil => simp [segments]
  | cons d rest ih =>
    by_cases slash : d = '/'
    · simp [segments, slash, other, ih]
    · obtain ⟨word, words, found⟩ := exists_segments_eq_cons rest
      simp only [found] at ih
      simp [segments, slash, found, ih, or_assoc]

theorem plain_of_mem_segments {word text : List Char} (member : word ∈ segments text) :
    '/' ∉ word := by
  induction text generalizing word with
  | nil => simp_all [segments]
  | cons c rest ih =>
    by_cases slash : c = '/'
    · simp only [segments, slash, if_true] at member
      rcases List.mem_cons.mp member with rfl | later
      · exact List.not_mem_nil
      · exact ih later
    · obtain ⟨first, words, found⟩ := exists_segments_eq_cons rest
      simp only [found] at ih
      simp only [segments, slash, if_false, found] at member
      rcases List.mem_cons.mp member with rfl | later
      · have apart := ih List.mem_cons_self
        simp [Ne.symm slash, apart]
      · exact ih (.tail _ later)

theorem joined_cons_cons (word next : List Char) (rest : List (List Char)) :
    joined (word :: next :: rest) = word ++ '/' :: joined (next :: rest) := by
  simp [joined, List.intercalate]

theorem segments_joined {words : List (List Char)} (some : words ≠ [])
    (plain : ∀ word ∈ words, '/' ∉ word) : segments (joined words) = words := by
  induction words with
  | nil => contradiction
  | cons word rest ih =>
    have own : segments word = [word] := segments_of_plain (plain word List.mem_cons_self)
    cases rest with
    | nil => simpa [joined] using own
    | cons next rest =>
      have others := ih (by simp) fun w member => plain w (.tail _ member)
      rw [joined_cons_cons, segments_append_slash, own, others]
      rfl

namespace Component

/-- What the first word of a path names, with or without others behind it. -/
def first? (word : List Char) (alone : Bool) : Option Component :=
  if word = [] then (if alone then none else some .root)
  else if word = ['.'] then some .current
  else ofSegment? word

/-- What the words of a text name behind a slash. -/
def behind (text : List Char) : List Component := (segments text).filterMap ofSegment?

theorem ofSegment?_eq_none_iff {word : List Char} : ofSegment? word = none ↔ Path.isVoid word := by
  unfold ofSegment? Path.isVoid
  split <;> simp_all

theorem first?_eq_some_of_ne_nil {word : List Char} (some : word ≠ []) (alone : Bool) :
    ∃ part, first? word alone = Option.some part ∧ part ≠ .root := by
  unfold first?
  rw [if_neg some]
  split
  · exact ⟨.current, rfl, by simp⟩
  · rename_i dot
    unfold ofSegment?
    split
    · contradiction
    · contradiction
    · exact ⟨.parent, rfl, by simp⟩
    · exact ⟨.name word, rfl, by simp⟩

theorem text_of_ofSegment? {word : List Char} {part : Component}
    (named : ofSegment? word = some part) : part.text = word := by
  unfold ofSegment? at named
  split at named <;> cases named <;> rfl

/-- A word that names nothing holds nothing but dots. -/
theorem mem_word_iff {word : List Char} {c : Char} (dot : c ≠ '.') :
    c ∈ word ↔ ∃ part, ofSegment? word = some part ∧ c ∈ part.text := by
  cases named : ofSegment? word with
  | none =>
    have void := ofSegment?_eq_none_iff.mp named
    simp only [Path.isVoid, Bool.or_eq_true, decide_eq_true_eq] at void
    rcases void with rfl | rfl <;> simp [dot]
  | some part => simp [text_of_ofSegment? named]

theorem ofSegment?_of_long {word : List Char} (long : 2 < word.length) :
    ofSegment? word = some (.name word) := by
  unfold ofSegment?
  split <;> simp_all

theorem behind_nil : behind [] = [] := rfl

/-- The components of the paths above one, all of them taken backwards. -/
def above : List Component → List (List Component)
  | [] => []
  | [part] => if part = .root then [] else [[]]
  | _ :: next :: rest => (next :: rest) :: above (next :: rest)

end Component

namespace Path

open Component (behind first?)

variable {p q r : Path}

theorem components_eq {word : List Char} {words : List (List Char)}
    (found : segments p.text = word :: words) : p.components =
      (first? word words.isEmpty).toList ++ words.filterMap Component.ofSegment? := by
  unfold components first?
  rw [found]
  split
  · simp_all
  · simp_all
  · rename_i others more none
    cases others with
    | nil => simp_all
    | cons _ _ => simp_all
  · simp_all
  · rename_i root current
    have named : word ≠ [] := by
      rintro rfl
      cases words with
      | nil => simp_all
      | cons _ _ => simp_all
    have still : word ≠ ['.'] := by
      rintro rfl
      exact current _ rfl
    simp [named, still, List.filterMap_cons]
    cases Component.ofSegment? word <;> rfl

theorem components_eq_nil_iff : p.components = [] ↔ p.text = [] := by
  obtain ⟨word, words, found⟩ := exists_segments_eq_cons p.text
  rw [components_eq found]
  constructor
  · intro none
    by_cases empty : word = []
    · cases words with
      | nil => exact eq_nil_of_segments (empty ▸ found)
      | cons _ _ => simp [first?, empty] at none
    · obtain ⟨part, named, -⟩ := Component.first?_eq_some_of_ne_nil empty words.isEmpty
      simp [named] at none
  · intro none
    rw [none] at found
    cases found
    rfl

theorem components_cons_slash (rest : List Char) :
    (⟨'/' :: rest⟩ : Path).components = .root :: behind rest := by
  obtain ⟨word, words, found⟩ := exists_segments_eq_cons rest
  have parted : segments ('/' :: rest) = [] :: word :: words := by simp [segments, found]
  rw [components_eq parted, behind, found]
  rfl

theorem components_append_slash {front : List Char} (some : front ≠ []) (rest : List Char) :
    (⟨front ++ '/' :: rest⟩ : Path).components = (⟨front⟩ : Path).components ++ behind rest := by
  obtain ⟨word, words, found⟩ := exists_segments_eq_cons front
  obtain ⟨next, others, more⟩ := exists_segments_eq_cons rest
  have parted : segments (front ++ '/' :: rest) = word :: (words ++ next :: others) := by
    rw [segments_append_slash, found, more]
    rfl
  -- a lone empty word would be the root as soon as a slash stands behind it
  have lead : first? word (words ++ next :: others).isEmpty = first? word words.isEmpty := by
    cases words with
    | cons _ _ => rfl
    | nil =>
      have named : word ≠ [] := fun empty => some (eq_nil_of_segments (empty ▸ found))
      simp [first?, named]
  rw [components_eq (p := ⟨front ++ '/' :: rest⟩) parted, components_eq (p := ⟨front⟩) found, lead,
    behind, more]
  simp

def leading : List (List Char) → List Component
  | [] => []
  | word :: words => (first? word false).toList ++ words.filterMap Component.ofSegment?

theorem components_of_segments {words : List (List Char)} {word : List Char}
    (found : segments p.text = words ++ [word]) (long : 2 < word.length) :
    p.components = leading words ++ [.name word] := by
  have named := Component.ofSegment?_of_long long
  cases words with
  | nil =>
    have first : first? word true = some (.name word) := by
      unfold first?
      split
      · simp_all
      · split <;> simp_all
    rw [components_eq found, List.isEmpty_nil, first]
    rfl
  | cons head words =>
    have parted : segments p.text = head :: (words ++ [word]) := found
    have behind : (words ++ [word]).isEmpty = false := by simp
    rw [components_eq parted, behind, List.filterMap_append]
    simp [leading, named]

/-- Text without a slash belongs to the last component, whatever stands before it. -/
theorem exists_components_append (stem : List Char) : ∃ parts last, ∀ word, '/' ∉ word →
    2 < word.length → (⟨stem ++ word⟩ : Path).components = parts ++ [.name (last ++ word)] := by
  obtain ⟨front, last, own, -⟩ := segments_append List.not_mem_nil stem
  refine ⟨leading front, last, fun word plain long => ?_⟩
  obtain ⟨words, also, same, found⟩ := segments_append plain stem
  obtain ⟨rfl, alike⟩ := List.append_inj' (own.symm.trans same) rfl
  cases alike
  exact components_of_segments found (by simp; omega)

/-! Joining -/

/-- A path's text with the slash that parts it from what is joined to it. -/
def front (p : Path) : List Char :=
  if p.text = [] ∨ p.text.getLast? = some '/' then p.text else p.text ++ ['/']

theorem join_of_absolute (absolute : q.isAbsolute = true) : p.join q = q := if_pos absolute

theorem join_of_relative (relative : q.isAbsolute = false) : p.join q = ⟨p.front ++ q.text⟩ := by
  unfold join front
  rw [relative]
  split
  · contradiction
  · split <;> simp

theorem front_eq_nil_iff : p.front = [] ↔ p.text = [] := by
  unfold front
  split <;> simp_all

theorem front_closed (p : Path) : p.front = [] ∨ ∃ body, p.front = body ++ ['/'] := by
  unfold front
  split
  · rename_i closed
    rcases closed with none | slash
    · exact .inl none
    · exact .inr (List.getLast?_eq_some_iff.mp slash)
  · exact .inr ⟨p.text, rfl⟩

theorem mem_front_iff {c : Char} (other : c ≠ '/') : c ∈ p.front ↔ c ∈ p.text := by
  unfold front
  split <;> simp [other]

theorem components_join (relative : q.isAbsolute = false) (some : p.text ≠ []) :
    (p.join q).components = p.components ++ behind q.text := by
  rw [join_of_relative relative, front]
  split
  · rename_i closed
    obtain ⟨body, text⟩ := List.getLast?_eq_some_iff.mp (closed.resolve_left some)
    have itself : p.components = (⟨body ++ ['/']⟩ : Path).components := by rw [← text]
    rw [text, List.append_assoc, itself]
    cases body with
    | nil => exact components_cons_slash q.text
    | cons c body =>
      have named : c :: body ≠ [] := List.cons_ne_nil _ _
      have closed := components_append_slash named []
      rw [Component.behind_nil, List.append_nil] at closed
      rw [closed]
      exact components_append_slash named q.text
  · rw [List.append_assoc]
    exact components_append_slash some q.text

theorem join_of_empty (relative : q.isAbsolute = false) (none : p.text = []) : p.join q = q := by
  rw [join_of_relative relative, front_eq_nil_iff.mpr none, List.nil_append]

theorem Same.text_eq_nil_iff (same : p.Same q) : p.text = [] ↔ q.text = [] := by
  rw [← components_eq_nil_iff, ← components_eq_nil_iff, same]

theorem Same.join (same : p.Same q) (r : Path) : (p.join r).Same (q.join r) := by
  by_cases absolute : r.isAbsolute = true
  · rw [join_of_absolute absolute, join_of_absolute absolute]
    exact .refl r
  · have relative : r.isAbsolute = false := by simpa using absolute
    by_cases none : p.text = []
    · rw [join_of_empty relative none, join_of_empty relative (same.text_eq_nil_iff.mp none)]
      exact .refl r
    · have also : q.text ≠ [] := none ∘ same.text_eq_nil_iff.mpr
      unfold Same
      rw [components_join relative none, components_join relative also, same]

theorem Same.normal_eq (same : p.Same q) : p.normal = q.normal := by
  unfold normal
  rw [same]

/-- A character that is neither a slash nor a dot stands in a name. -/
theorem mem_text_iff {c : Char} (slash : c ≠ '/') (dot : c ≠ '.') :
    c ∈ p.text ↔ ∃ part ∈ p.components, c ∈ part.text := by
  obtain ⟨word, words, found⟩ := exists_segments_eq_cons p.text
  have firstWord : c ∈ word ↔ ∃ part ∈ (first? word words.isEmpty).toList, c ∈ part.text := by
    unfold first?
    split
    · split <;> simp_all [Component.text]
    · split
      · simp_all [Component.text]
      · simpa [Option.mem_toList] using Component.mem_word_iff dot
  have otherWords : (∃ w ∈ words, c ∈ w) ↔
      ∃ part ∈ words.filterMap Component.ofSegment?, c ∈ part.text := by
    constructor
    · rintro ⟨w, member, inside⟩
      obtain ⟨part, named, stands⟩ := (Component.mem_word_iff dot).mp inside
      exact ⟨part, List.mem_filterMap.mpr ⟨w, member, named⟩, stands⟩
    · rintro ⟨part, member, stands⟩
      obtain ⟨w, among, named⟩ := List.mem_filterMap.mp member
      exact ⟨w, among, (Component.mem_word_iff dot).mpr ⟨part, named, stands⟩⟩
  rw [mem_iff_mem_segments slash, found, components_eq found]
  simp only [List.mem_cons, List.mem_append, or_and_right, exists_or, exists_eq_left, firstWord,
    otherWords]

/-! Enclosing directories -/

/-- What words taken backwards name; a lone empty word is the root. -/
def named : List (List Char) → List Component
  | [] => []
  | [word] => (first? word false).toList
  | word :: next :: rest => (Component.ofSegment? word).toList ++ named (next :: rest)

theorem named_append (words : List (List Char)) (word : List Char) : named (words ++ [word]) =
    words.filterMap Component.ofSegment? ++ (first? word false).toList := by
  induction words with
  | nil => rfl
  | cons next rest ih =>
    cases rest with
    | nil => cases found : Component.ofSegment? next <;> simp [named, found]
    | cons other rest =>
      cases found : Component.ofSegment? next <;> simp_all [named]

theorem components_eq_named (some : p.text ≠ []) :
    p.components.reverse = named (segments p.text).reverse := by
  obtain ⟨word, words, found⟩ := exists_segments_eq_cons p.text
  have lead : first? word words.isEmpty = first? word false := by
    cases words with
    | cons _ _ => rfl
    | nil =>
      have named : word ≠ [] := fun empty => some (eq_nil_of_segments (empty ▸ found))
      simp [first?, named]
  rw [components_eq found, lead, found, List.reverse_cons, named_append, List.reverse_append,
    List.filterMap_reverse]
  cases first? word false <;> rfl

theorem components_ofReversed {words : List (List Char)} (plain : ∀ word ∈ words, '/' ∉ word) :
    (ofReversed words).components.reverse = named words := by
  unfold ofReversed
  split
  · rfl
  · rename_i lone
    by_cases none : words = []
    · rw [none]
      rfl
    · have parted : segments (joined words.reverse) = words.reverse :=
        segments_joined (by simpa using none) (by simpa using plain)
      have some : joined words.reverse ≠ [] := by
        intro empty
        rw [empty] at parted
        exact lone (List.reverse_eq_iff.mp parted.symm)
      rw [components_eq_named (p := ⟨joined words.reverse⟩) some, parted, List.reverse_reverse]

theorem trimmed_suffix (words : List (List Char)) : trimmed words <:+ words := by
  fun_induction trimmed words with
  | case1 word next rest void ih => exact ih.trans (List.suffix_cons _ _)
  | case2 word next rest some => exact List.suffix_refl _
  | case3 words short => exact List.suffix_refl _

theorem named_trimmed (words : List (List Char)) : named (trimmed words) = named words := by
  fun_induction trimmed words with
  | case1 word next rest void ih =>
    simp [named, Component.ofSegment?_eq_none_iff.mpr void, ih]
  | case2 word next rest some => rfl
  | case3 words short => rfl

theorem named_ne_nil (word : List Char) (words : List (List Char)) :
    named (word :: words) ≠ [] := by
  induction words generalizing word with
  | nil =>
    by_cases none : word = []
    · simp [named, first?, none]
    · obtain ⟨part, some, -⟩ := Component.first?_eq_some_of_ne_nil none false
      simp [named, some]
  | cons next rest ih => simp [named, ih]

theorem components_enclosing {words : List (List Char)} (plain : ∀ word ∈ words, '/' ∉ word) :
    (enclosing words).map (fun above => (ofReversed above).components.reverse) =
      Component.above (named words) := by
  fun_induction enclosing words with
  | case1 => rfl
  | case2 => simp [named, first?, Component.above]
  | case3 word some =>
    obtain ⟨part, found, other⟩ := Component.first?_eq_some_of_ne_nil some false
    simp only [named, found, Option.toList_some, Component.above, if_neg other]
    rfl
  | case4 word next rest void ih =>
    have others := ih fun w member => plain w (.tail _ member)
    simp [named, Component.ofSegment?_eq_none_iff.mpr void, others]
  | case5 word next rest some ih =>
    have others := ih fun w member => plain w (.tail _ member)
    have here := components_ofReversed fun w member =>
      plain w (.tail _ ((trimmed_suffix (next :: rest)).subset member))
    rw [named_trimmed] at here
    obtain ⟨part, found⟩ :=
      Option.ne_none_iff_exists'.mp (some ∘ Component.ofSegment?_eq_none_iff.mp)
    obtain ⟨first, more, parts⟩ := List.exists_cons_of_ne_nil (named_ne_nil next rest)
    simp only [List.map_cons, others, here, named, found, Option.toList_some, List.singleton_append]
    rw [parts]
    rfl

theorem components_parents (p : Path) :
    p.parents.map (fun q => q.components.reverse) = Component.above p.components.reverse := by
  have plain : ∀ word ∈ (segments p.text).reverse, '/' ∉ word := fun word member =>
    plain_of_mem_segments (List.mem_reverse.mp member)
  simp only [parents, wordsAbove, List.map_map]
  by_cases none : p.text = []
  · rw [none, components_eq_nil_iff.mpr none]
    rfl
  · rw [components_eq_named none]
    exact components_enclosing plain

theorem suffix_of_mem_above {parts above : List Component}
    (member : above ∈ Component.above parts) : above <:+ parts := by
  induction parts with
  | nil => cases member
  | cons part rest ih =>
    cases rest with
    | nil =>
      unfold Component.above at member
      split at member
      · cases member
      · rw [List.mem_singleton.mp member]
        exact List.nil_suffix
    | cons next rest =>
      rcases List.mem_cons.mp member with rfl | further
      · exact List.suffix_cons _ _
      · exact (ih further).trans (List.suffix_cons _ _)

/-- A path lies within whatever encloses it. -/
theorem startsWith_of_mem_ancestors (member : q ∈ p.ancestors) : p.startsWith q = true := by
  apply startsWith_iff.mpr
  rcases List.mem_cons.mp member with rfl | further
  · exact List.prefix_refl _
  · have above := List.mem_map_of_mem (f := fun r : Path => r.components.reverse) further
    rw [components_parents] at above
    exact List.reverse_suffix.mp (suffix_of_mem_above above)

/-- Spellings of one path are enclosed by spellings of the same directories. -/
theorem Same.ancestors (same : p.Same q) : List.Forall₂ Same p.ancestors q.ancestors := by
  have parts : p.parents.map (fun r => r.components.reverse) =
      q.parents.map (fun r => r.components.reverse) := by
    rw [components_parents, components_parents, same]
  refine .cons same ?_
  rw [← List.forall₂_eq_eq_eq, List.forall₂_map_left_iff, List.forall₂_map_right_iff] at parts
  exact parts.imp fun _ _ => List.reverse_inj.mp

theorem Same.parent? (same : p.Same q) : Option.Rel Same p.parent? q.parent? := by
  have head (r : Path) : r.parent? = r.parents.head? := List.head?_map.symm
  rw [head, head]
  have above := (List.forall₂_cons.mp same.ancestors).2
  generalize p.parents = ps, q.parents = qs at above
  cases above with
  | nil => exact .none
  | cons first _ => exact .some first

/-! Beneath a directory -/

theorem isBeneath_join (relative : q.isAbsolute = false) (named : p.text ≠ [])
    (deeper : Component.behind q.text ≠ []) : (p.join q).isBeneath p = true := by
  have parts := components_join relative named
  refine isBeneath_iff.mpr ⟨parts ▸ List.prefix_append _ _, fun same => deeper ?_⟩
  exact List.append_right_eq_self.mp (parts.symm.trans same)

theorem isBeneath_of_startsWith {dir : Path} (beneath : p.isBeneath q = true)
    (within : q.startsWith dir = true) : p.isBeneath dir = true := by
  obtain ⟨above, apart⟩ := isBeneath_iff.mp beneath
  have upper := startsWith_iff.mp within
  refine isBeneath_iff.mpr ⟨upper.trans above, fun same => apart ?_⟩
  -- a path between two spellings of one directory is that directory
  exact List.IsPrefix.eq_of_length_le above (same ▸ upper.length_le) |>.symm

theorem startsWith_join (relative : q.isAbsolute = false) (named : p.text ≠ []) :
    (p.join q).startsWith p = true :=
  startsWith_iff.mpr (components_join relative named ▸ List.prefix_append _ _)

theorem text_join_eq_nil_iff : (p.join q).text = [] ↔ p.text = [] ∧ q.text = [] := by
  cases absolute : q.isAbsolute with
  | true =>
    have named : q.text ≠ [] := by
      intro none
      simp [isAbsolute, none] at absolute
    simp [join_of_absolute absolute, named]
  | false =>
    rw [join_of_relative absolute]
    simp [front_eq_nil_iff]

/-- An ending of some length names something. -/
theorem behind_ne_nil {ending : String} (plain : '/' ∉ ending.toList)
    (long : 2 < ending.toList.length) (ends : q.endsWith ending = true) :
    Component.behind q.text ≠ [] := by
  obtain ⟨stem, text⟩ := List.isSuffixOf_iff_suffix.mp ends
  obtain ⟨front, last, -, words⟩ := segments_append plain stem
  have named : Component.ofSegment? (last ++ ending.toList) =
      some (.name (last ++ ending.toList)) := Component.ofSegment?_of_long (by simp; omega)
  rw [Component.behind, ← text, words, List.filterMap_append]
  simp [named]

end Path
end ComponentProjects
