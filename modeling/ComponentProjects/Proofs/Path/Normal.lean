import ComponentProjects.Proofs.Path.Joining

/-! Normal paths. Components are settled one by one on a stack that never holds a step it could take
back, so a normal path names just what was settled. Normalising it again changes nothing, nor does
it matter whether a directory is normalised before a path is read from it. -/
namespace ComponentProjects

namespace Component

/-- Read between slashes, the component's text names the component. -/
def Spelled (part : Component) : Prop := ofSegment? part.text = some part ∧ '/' ∉ part.text

/-- Settled components, the latest first: names, and behind them the root or steps to parents. -/
inductive Settled : List Component → Prop where
  | nil : Settled []
  | root : Settled [.root]
  | parent {stack : List Component} (climbing : ∀ part ∈ stack, part = .parent) :
    Settled (.parent :: stack)
  | name {word : List Char} {stack : List Component} (spelled : Spelled (.name word))
    (settled : Settled stack) : Settled (.name word :: stack)

theorem spelled_parent : Spelled .parent := ⟨rfl, by decide⟩

theorem spelled_of_ofSegment? {word : List Char} {part : Component} (plain : '/' ∉ word)
    (named : ofSegment? word = some part) : Spelled part := by
  have text := text_of_ofSegment? named
  unfold Spelled
  rw [text]
  exact ⟨named, plain⟩

theorem filterMap_text {parts : List Component} (spelled : ∀ part ∈ parts, Spelled part) :
    (parts.map text).filterMap ofSegment? = parts := by
  induction parts with
  | nil => rfl
  | cons part rest ih =>
    obtain ⟨named, -⟩ := spelled part List.mem_cons_self
    rw [List.map_cons, List.filterMap_cons_some named,
      ih fun other later => spelled other (.tail _ later)]

theorem segments_joined_text {part : Component} {rest : List Component}
    (spelled : ∀ other ∈ part :: rest, Spelled other) :
    segments (joined ((part :: rest).map text)) = part.text :: rest.map text := by
  apply segments_joined (List.cons_ne_nil _ _)
  intro word member
  obtain ⟨own, among, rfl⟩ := List.mem_map.mp (show word ∈ (part :: rest).map text from member)
  exact (spelled own among).2

theorem behind_joined {parts : List Component} (spelled : ∀ part ∈ parts, Spelled part) :
    behind (joined (parts.map text)) = parts := by
  cases parts with
  | nil => rfl
  | cons part rest =>
    rw [behind, segments_joined_text spelled]
    exact filterMap_text spelled

theorem first?_text {part : Component} (spelled : Spelled part) (alone : Bool) :
    first? part.text alone = some part := by
  obtain ⟨named, -⟩ := spelled
  unfold first?
  split
  · rename_i empty
    rw [empty] at named
    cases named
  · split
    · rename_i dot
      rw [dot] at named
      cases named
    · exact named

namespace Settled

variable {stack : List Component} {part : Component}

theorem tail (settled : Settled (part :: stack)) : Settled stack := by
  cases settled with
  | root => exact .nil
  | name spelled settled => exact settled
  | parent climbing =>
    cases stack with
    | nil => exact .nil
    | cons next rest =>
      rw [climbing next List.mem_cons_self]
      exact .parent fun other later => climbing other (.tail _ later)

theorem of_suffix {whole : List Component} (settled : Settled whole) (part : stack <:+ whole) :
    Settled stack := by
  obtain ⟨front, rfl⟩ := part
  induction front with
  | nil => exact settled
  | cons part front ih => exact ih settled.tail

theorem settle (settled : Settled stack) (spelled : Spelled part) :
    Settled (Path.settle stack part) := by
  cases part with
  | root => exact absurd spelled.1 (by decide)
  | current => exact absurd spelled.1 (by decide)
  | name word => exact .name spelled settled
  | parent =>
    cases settled with
    | nil => exact .parent fun other member => by cases member
    | root => exact .root
    | name _ settled => exact settled
    | @parent stack climbing =>
      apply Settled.parent
      intro other member
      rcases List.mem_cons.mp member with rfl | later
      · rfl
      · exact climbing other later

theorem foldl {parts : List Component} (settled : Settled stack)
    (spelled : ∀ part ∈ parts, Spelled part) : Settled (parts.foldl Path.settle stack) := by
  induction parts generalizing stack with
  | nil => exact settled
  | cons part rest ih =>
    apply ih (settled.settle (spelled part List.mem_cons_self))
    exact fun other later => spelled other (.tail _ later)

theorem settle_eq (settled : Settled (part :: stack)) : Path.settle stack part = part :: stack := by
  cases settled with
  | root => rfl
  | name spelled settled => rfl
  | parent climbing =>
    cases stack with
    | nil => rfl
    | cons next rest =>
      rw [climbing next List.mem_cons_self]
      rfl

/-- Settled components are settled to themselves. -/
theorem foldl_reverse (settled : Settled stack) : stack.reverse.foldl Path.settle [] = stack := by
  induction stack with
  | nil => rfl
  | cons part rest ih =>
    rw [List.reverse_cons, List.foldl_append, ih settled.tail]
    exact settled.settle_eq

/-- The root comes first or not at all, and everything else is spelled as within a path. -/
theorem shape (settled : Settled stack) :
    (∃ parts, stack.reverse = .root :: parts ∧ ∀ part ∈ parts, Spelled part) ∨
      ∀ part ∈ stack.reverse, Spelled part := by
  induction settled with
  | nil => exact .inr fun part member => by cases member
  | root => exact .inl ⟨[], rfl, fun part member => by cases member⟩
  | @parent stack climbing =>
    refine .inr fun part member => ?_
    rcases List.mem_cons.mp (List.mem_reverse.mp member) with rfl | later
    · exact spelled_parent
    · rw [climbing part later]
      exact spelled_parent
  | @name word stack spelled _ ih =>
    have more {parts : List Component} (others : ∀ part ∈ parts, Spelled part) :
        ∀ part ∈ parts ++ [.name word], Spelled part := by
      intro part member
      rcases List.mem_append.mp member with early | last
      · exact others part early
      · rw [List.mem_singleton.mp last]
        exact spelled
    rw [List.reverse_cons]
    rcases ih with ⟨parts, rooted, others⟩ | others
    · exact .inl ⟨parts ++ [.name word], by rw [rooted]; rfl, more others⟩
    · exact .inr (more others)

theorem components_ofComponents (settled : Settled stack) :
    (Path.ofComponents stack.reverse).components = stack.reverse := by
  rcases settled.shape with ⟨parts, rooted, spelled⟩ | spelled
  · rw [rooted]
    exact (Path.components_cons_slash _).trans (congrArg _ (behind_joined spelled))
  · generalize stack.reverse = parts at spelled
    cases parts with
    | nil => rfl
    | cons part rest =>
      have plain : Path.ofComponents (part :: rest) = ⟨joined ((part :: rest).map text)⟩ := by
        cases part with
        | root => exact absurd (spelled .root List.mem_cons_self).1 (by decide)
        | _ => rfl
      have parted := segments_joined_text spelled
      have first := first?_text (spelled part List.mem_cons_self) (rest.map text).isEmpty
      have others := filterMap_text fun other later => spelled other (.tail _ later)
      rw [plain, Path.components_eq (p := ⟨joined ((part :: rest).map text)⟩) parted, first, others]
      rfl

end Settled
end Component

namespace Path

open Component (Settled behind first?)

variable {p q r : Path}

/-- The components of a path as far as they can be worked out, the latest first. -/
def settled (p : Path) : List Component := p.components.foldl settle []

/-- Only the first component of a path may be the root or a dot. -/
theorem exists_first (p : Path) : ∃ first : Option Component, ∃ rest,
    p.components = first.toList ++ rest ∧
      (∀ part ∈ first, part = .root ∨ part = .current ∨ Component.Spelled part) ∧
        ∀ part ∈ rest, Component.Spelled part := by
  obtain ⟨word, words, found⟩ := exists_segments_eq_cons p.text
  have plain : ∀ other ∈ word :: words, '/' ∉ other := by
    rw [← found]
    exact fun _ => plain_of_mem_segments
  refine ⟨first? word words.isEmpty, words.filterMap Component.ofSegment?, components_eq found,
    ?_, ?_⟩
  · intro part named
    unfold first? at named
    split at named
    · split at named
      · cases named
      · exact .inl (Option.some.inj named).symm
    · split at named
      · exact .inr (.inl (Option.some.inj named).symm)
      · exact .inr (.inr (Component.spelled_of_ofSegment? (plain word List.mem_cons_self) named))
  · intro part member
    obtain ⟨other, later, named⟩ := List.mem_filterMap.mp member
    exact Component.spelled_of_ofSegment? (plain other (.tail _ later)) named

theorem settled_settled (p : Path) : Settled p.settled := by
  obtain ⟨first, rest, parts, lead, others⟩ := p.exists_first
  rw [settled, parts, List.foldl_append]
  apply Settled.foldl _ others
  cases first with
  | none => exact .nil
  | some part =>
    rcases lead part rfl with rfl | rfl | spelled
    · exact .root
    · exact .nil
    · exact Settled.nil.settle spelled

theorem components_normal (p : Path) : p.normal.components = p.settled.reverse :=
  p.settled_settled.components_ofComponents

theorem settled_normal (p : Path) : p.normal.settled = p.settled := by
  unfold settled
  rw [components_normal]
  exact p.settled_settled.foldl_reverse

theorem normal_eq_of_settled (same : p.settled = q.settled) : p.normal = q.normal :=
  congrArg (fun stack : List Component => ofComponents stack.reverse) same

theorem normal_normal (p : Path) : p.normal.normal = p.normal :=
  normal_eq_of_settled p.settled_normal

/-- Whatever encloses a normal path is normal but for its spelling. -/
theorem same_normal_of_startsWith (within : p.normal.startsWith r = true) : r.Same r.normal := by
  have front := startsWith_iff.mp within
  rw [components_normal] at front
  have settled : Settled r.components.reverse :=
    p.settled_settled.of_suffix (by rwa [← List.reverse_prefix, List.reverse_reverse])
  have itself := settled.foldl_reverse
  rw [List.reverse_reverse] at itself
  unfold Same
  rw [components_normal, Path.settled, itself, List.reverse_reverse]

theorem isAbsolute_of_segments {next : List Char} {rest : List (List Char)}
    (found : segments p.text = [] :: next :: rest) : p.isAbsolute = true := by
  obtain ⟨text⟩ := p
  cases text with
  | nil => cases found
  | cons c text =>
    by_cases slash : c = '/'
    · rw [slash]
      rfl
    · obtain ⟨word, words, others⟩ := exists_segments_eq_cons text
      simp [segments, slash, others] at found

/-- A leading dot settles to nothing, so a relative path starts like one within another path. -/
theorem settled_of_relative (relative : p.isAbsolute = false) :
    p.settled = (behind p.text).foldl settle [] := by
  obtain ⟨word, words, found⟩ := exists_segments_eq_cons p.text
  rw [settled, components_eq found, behind, found]
  by_cases empty : word = []
  · cases words with
    | nil => rw [empty]; rfl
    | cons next rest =>
      rw [empty] at found
      rw [isAbsolute_of_segments found] at relative
      cases relative
  · by_cases dot : word = ['.']
    · rw [dot]
      rfl
    · have first : first? word words.isEmpty = Component.ofSegment? word := by
        rw [first?, if_neg empty, if_neg dot]
      rw [first, List.filterMap_cons]
      cases Component.ofSegment? word <;> rfl

theorem settled_join (relative : q.isAbsolute = false) :
    (p.join q).settled = (behind q.text).foldl settle p.settled := by
  by_cases empty : p.text = []
  · have none : p.settled = [] := by rw [settled, components_eq_nil_iff.mpr empty]; rfl
    rw [join_of_empty relative empty, none, settled_of_relative relative]
  · rw [settled, components_join relative empty, List.foldl_append]
    rfl

/-- It does not matter whether a directory is normalised before a path is read from it. -/
theorem normal_join (p q : Path) : (p.normal.join q).normal = (p.join q).normal := by
  cases absolute : q.isAbsolute with
  | true => rw [join_of_absolute absolute, join_of_absolute absolute]
  | false =>
    apply normal_eq_of_settled
    rw [settled_join absolute, settled_join absolute, settled_normal]

end Path
end ComponentProjects
