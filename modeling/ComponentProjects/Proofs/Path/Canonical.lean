import Mathlib.Logic.Relation
import ComponentProjects.Import.Search
import ComponentProjects.Project.Chain
import ComponentProjects.Proofs.Path.Normal

/-! What normalising does, said apart from how it is done. A path's components are shortened step by
step: a dot goes, a name goes with the step back behind it, and above the root there is nothing. The
normal path is the one canonical path that comes of it, and so a name that is a path leads to the
same from a directory however that is spelled. -/
namespace ComponentProjects

open Relation (ReflTransGen)

namespace Component

variable {parts others stack : List Component}

/-- One step of working a path out by its text. -/
inductive Shortens : List Component → List Component → Prop where
  | dot (front rest : List Component) : Shortens (front ++ .current :: rest) (front ++ rest)
  | back (front : List Component) (word : List Char) (rest : List Component) :
    Shortens (front ++ .name word :: .parent :: rest) (front ++ rest)
  | top (front rest : List Component) :
    Shortens (front ++ .root :: .parent :: rest) (front ++ .root :: rest)

/-- Names behind the root, or behind the steps to parents that nothing can take back. -/
inductive Canonical : Bool → List Component → Prop where
  | absolute (names : List (List Char)) : Canonical true (.root :: names.map .name)
  | relative (climbs : Nat) (names : List (List Char)) :
    Canonical false (List.replicate climbs .parent ++ names.map .name)

theorem Shortens.settled_eq (shortens : Shortens parts others) :
    parts.foldl Path.settle [] = others.foldl Path.settle [] := by
  cases shortens with
  | dot front rest => simp [List.foldl_append, Path.settle]
  | back front word rest => simp [List.foldl_append, Path.settle]
  | top front rest => simp [List.foldl_append, Path.settle]

theorem settled_eq_of_shortened (steps : ReflTransGen Shortens parts others) :
    parts.foldl Path.settle [] = others.foldl Path.settle [] := by
  induction steps with
  | refl => rfl
  | tail _ step ih => exact ih.trans step.settled_eq

/-- Settling a component on others shortens the list by one step, if it changes it. -/
theorem shortened_settle (stack : List Component) (part : Component) (rest : List Component) :
    ReflTransGen Shortens (stack.reverse ++ part :: rest)
      ((Path.settle stack part).reverse ++ rest) := by
  have unchanged : ReflTransGen Shortens (stack.reverse ++ part :: rest)
      ((part :: stack).reverse ++ rest) := by
    rw [List.reverse_cons, List.append_assoc]
    exact .refl
  cases part with
  | root => exact unchanged
  | current => exact .single (.dot stack.reverse rest)
  | name word => exact unchanged
  | parent =>
    cases stack with
    | nil => exact unchanged
    | cons last stack =>
      cases last with
      | root =>
        have step := Shortens.top stack.reverse rest
        apply ReflTransGen.single
        simpa [Path.settle] using step
      | current => exact unchanged
      | parent => exact unchanged
      | name word =>
        have step := Shortens.back stack.reverse word rest
        apply ReflTransGen.single
        simpa [Path.settle] using step

theorem shortened_foldl (stack parts : List Component) :
    ReflTransGen Shortens (stack.reverse ++ parts) (parts.foldl Path.settle stack).reverse := by
  induction parts generalizing stack with
  | nil =>
    rw [List.append_nil]
    exact .refl
  | cons part rest ih => exact (shortened_settle stack part rest).trans (ih _)

theorem foldl_names (stack : List Component) (names : List (List Char)) :
    (names.map Component.name).foldl Path.settle stack =
      (names.map Component.name).reverse ++ stack := by
  induction names generalizing stack with
  | nil => rfl
  | cons word rest ih => simp [Path.settle, ih]

theorem foldl_parents (climbs : Nat) :
    (List.replicate climbs Component.parent).foldl Path.settle [] =
      List.replicate climbs .parent := by
  induction climbs with
  | zero => rfl
  | succ climbs ih =>
    calc (List.replicate (climbs + 1) Component.parent).foldl Path.settle []
        = Path.settle ((List.replicate climbs .parent).foldl Path.settle []) .parent := by
          rw [List.replicate_succ', List.foldl_append]
          rfl
      _ = Path.settle (List.replicate climbs .parent) .parent := by rw [ih]
      _ = List.replicate (climbs + 1) .parent := by cases climbs <;> rfl

/-- Nothing of a list in canonical form can be settled further. -/
theorem Canonical.settled_eq {absolute : Bool} (canonical : Canonical absolute parts) :
    parts.foldl Path.settle [] = parts.reverse := by
  cases canonical with
  | absolute names =>
    rw [List.foldl_cons, foldl_names, List.reverse_cons]
    rfl
  | relative climbs names =>
    rw [List.foldl_append, foldl_parents, foldl_names, List.reverse_append,
      List.reverse_replicate]

theorem Settled.exists_canonical (settled : Settled stack) :
    ∃ absolute, Canonical absolute stack.reverse := by
  induction settled with
  | nil => exact ⟨false, .relative 0 []⟩
  | root => exact ⟨true, .absolute []⟩
  | @parent stack climbing =>
    have climbs : ∀ part ∈ (.parent :: stack).reverse, part = .parent := by
      intro part member
      rcases List.mem_cons.mp (List.mem_reverse.mp member) with rfl | further
      · rfl
      · exact climbing part further
    refine ⟨false, ?_⟩
    rw [List.eq_replicate_of_mem climbs]
    simpa using Canonical.relative (.parent :: stack).reverse.length []
  | @name word stack _ _ ih =>
    obtain ⟨absolute, canonical⟩ := ih
    refine ⟨absolute, ?_⟩
    rw [List.reverse_cons]
    generalize stack.reverse = parts at canonical
    cases canonical with
    | absolute names =>
      have longer := Canonical.absolute (names ++ [word])
      simpa using longer
    | relative climbs names =>
      have longer := Canonical.relative climbs (names ++ [word])
      simpa using longer

theorem mem_root_settle {part : Component} :
    .root ∈ Path.settle stack part ↔ .root ∈ stack ∨ part = .root := by
  cases part with
  | root => simp [Path.settle]
  | current => simp [Path.settle]
  | name word => simp [Path.settle]
  | parent =>
    cases stack with
    | nil => simp [Path.settle]
    | cons last stack => cases last <;> simp [Path.settle]

theorem mem_root_foldl :
    .root ∈ parts.foldl Path.settle stack ↔ .root ∈ stack ∨ .root ∈ parts := by
  induction parts generalizing stack with
  | nil => simp
  | cons part rest ih =>
    rw [List.foldl_cons, ih, mem_root_settle, List.mem_cons, or_assoc, eq_comm]

theorem Canonical.mem_root_iff {absolute : Bool} (canonical : Canonical absolute parts) :
    .root ∈ parts ↔ absolute = true := by
  cases canonical <;> simp

end Component

namespace Path

open Component (Shortens Canonical Spelled)

variable {p q : Path} {parts : List Component}

theorem ofSegment?_ne_root (word : List Char) : Component.ofSegment? word ≠ some .root := by
  unfold Component.ofSegment?
  split <;> simp

theorem isAbsolute_iff : p.isAbsolute = true ↔ .root ∈ p.components := by
  constructor
  · intro absolute
    obtain ⟨rest, slash⟩ := List.head?_eq_some_iff.mp (of_decide_eq_true absolute)
    have parts := components_cons_slash rest
    rw [← slash] at parts
    exact parts ▸ List.mem_cons_self
  · intro rooted
    obtain ⟨word, words, found⟩ := exists_segments_eq_cons p.text
    rw [components_eq found] at rooted
    rcases List.mem_append.mp rooted with first | later
    · have named := Option.mem_toList.mp first
      unfold Component.first? at named
      split at named
      · rename_i empty
        cases words with
        | nil => cases named
        | cons next rest => exact isAbsolute_of_segments (empty ▸ found)
      · split at named
        · cases named
        · exact absurd named (ofSegment?_ne_root word)
    · obtain ⟨other, -, named⟩ := List.mem_filterMap.mp later
      exact absurd named (ofSegment?_ne_root other)

theorem canonical_settled (p : Path) : Canonical p.isAbsolute p.settled.reverse := by
  obtain ⟨absolute, canonical⟩ := p.settled_settled.exists_canonical
  have rooted : absolute = true ↔ p.isAbsolute = true := by
    rw [← canonical.mem_root_iff, List.mem_reverse, isAbsolute_iff, settled,
      Component.mem_root_foldl]
    simp
  rw [Bool.eq_iff_iff.mpr rooted] at canonical
  exact canonical

theorem isAbsolute_normal (p : Path) : p.normal.isAbsolute = p.isAbsolute := by
  rw [Bool.eq_iff_iff, isAbsolute_iff, components_normal]
  exact (canonical_settled p).mem_root_iff

/-- The normal path is all that a path can be shortened to. -/
theorem components_normal_iff (p : Path) : parts = p.normal.components ↔
    Canonical p.isAbsolute parts ∧ ReflTransGen Shortens p.components parts := by
  rw [components_normal]
  constructor
  · rintro rfl
    exact ⟨canonical_settled p, Component.shortened_foldl [] p.components⟩
  · rintro ⟨canonical, steps⟩
    have settled : p.settled = parts.reverse :=
      (Component.settled_eq_of_shortened steps).trans canonical.settled_eq
    rw [settled, List.reverse_reverse]

/-! Directories spelled otherwise -/

variable {dir place : Path}

/-- Two directories from which a path leads to the same, be it written in a pattern, in an option or
a list of a project file, as the file that this one builds on, or as what is imported. -/
structure ReadAlike (dir place : Path) : Prop where
  joined : ∀ r, (dir.join r).normal = (place.join r).normal
  included : ∀ pattern, Glob.ofInclude dir pattern = Glob.ofInclude place pattern
  excluded : ∀ pattern, Glob.ofExclude dir pattern = Glob.ofExclude place pattern
  listed : ∀ file other : ProjectFile, file.directory = dir → other.directory = place →
    file.resolve = other.resolve
  options : ∀ file other : ProjectFile, file.directory = dir → other.directory = place →
    file.options = other.options → file.settledOptions = other.settledOptions
  extended : ∀ tree name, name.toList.head? = some '.' ∨ (Path.ofString name).isAbsolute = true →
    Chain.base? tree name dir = Chain.base? tree name place
  imported : ∀ tree options specifier importer other,
    importer.parent?.getD (.ofString "/") = dir → other.parent?.getD (.ofString "/") = place →
    Import.isRelative specifier = true ∨ (Path.ofString specifier).isAbsolute = true →
    Import.search tree options specifier importer = Import.search tree options specifier other
  based : ∀ tree (options other : Options) specifier, options.baseUrl? = some dir →
    other.baseUrl? = some place →
    Import.fromBaseUrl tree options specifier = Import.fromBaseUrl tree other specifier

theorem normal_join_congr (same : dir.normal = place.normal) (r : Path) :
    (dir.join r).normal = (place.join r).normal := by
  rw [← normal_join, same, normal_join]

theorem readAlike_of_normal (same : dir.normal = place.normal) : dir.ReadAlike place := by
  have joined := normal_join_congr same
  have listed (file other : ProjectFile) (inDir : file.directory = dir)
      (inPlace : other.directory = place) : file.resolve = other.resolve := by
    funext path
    unfold ProjectFile.resolve
    rw [inDir, inPlace, joined]
  refine ⟨joined, ?_, ?_, listed, ?_, ?_, ?_, ?_⟩
  · intro pattern
    unfold Glob.ofInclude Glob.absoluteText
    rw [joined]
  · intro pattern
    unfold Glob.ofExclude Glob.absoluteText
    rw [joined]
  · intro file other inDir inPlace options
    have settle : file.settleOption = other.settleOption := by
      funext options key
      unfold ProjectFile.settleOption
      rw [listed file other inDir inPlace]
    unfold ProjectFile.settledOptions
    rw [settle, options]
  · intro tree name path
    unfold Chain.base?
    rw [if_pos path, if_pos path, joined]
  · intro tree options specifier importer other inDir inPlace path
    unfold Import.search
    simp only [inDir, inPlace, if_pos path, joined]
  · intro tree options other specifier own also
    unfold Import.fromBaseUrl
    rw [own, also]
    simp only [joined]

/-- Normalising shortens a path to the one canonical form it has, keeps it absolute or relative, and
gives all spellings of it one text. It may as well be done before something is read from a
directory, so directories that are normalised alike are read alike. -/
theorem normal_canonical (p : Path) :
    (∀ parts, parts = p.normal.components ↔
      Canonical p.isAbsolute parts ∧ ReflTransGen Shortens p.components parts) ∧
    p.normal.isAbsolute = p.isAbsolute ∧
    (∀ q, p.Same q → p.normal = q.normal) ∧
    p.normal.normal = p.normal ∧
    (∀ q, (p.join q).normal = (p.normal.join q).normal) ∧
    ∀ q, p.normal = q.normal → p.ReadAlike q :=
  ⟨fun _ => p.components_normal_iff, p.isAbsolute_normal, fun _ => Same.normal_eq, p.normal_normal,
    fun q => (p.normal_join q).symm, fun _ => readAlike_of_normal⟩

/-- A directory that is left again on the way, and one more slash, make no difference. -/
theorem normal_canonical_respelled :
    let dir := Path.ofString "/p/x/..//src"
    let place := Path.ofString "/p/./src/"
    let parts : List Component := [.root, .name ['p'], .name ['s', 'r', 'c']]
    parts = dir.normal.components ∧ place.Same (.ofString "/p/src") ∧
      place.normal = (Path.ofString "/p/src").normal ∧ dir.normal = place.normal ∧
      dir.ReadAlike place := by
  intro dir place parts
  obtain ⟨shortened, -, -, -, -, alike⟩ := normal_canonical dir
  obtain ⟨-, -, spelled, -, -, -⟩ := normal_canonical place
  have step : ReflTransGen Shortens dir.components parts :=
    .single (.back [.root, .name ['p']] ['x'] [.name ['s', 'r', 'c']])
  have canonical : Canonical true parts := .absolute [['p'], ['s', 'r', 'c']]
  have same : place.Same (.ofString "/p/src") := by decide
  have equal : dir.normal = place.normal := by decide
  exact ⟨(shortened parts).mpr ⟨canonical, step⟩, same, spelled _ same, equal, alike _ equal⟩

end Path
end ComponentProjects
