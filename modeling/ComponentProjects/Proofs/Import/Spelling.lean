import ComponentProjects.FileTree.Memory
import ComponentProjects.Import.Resolver
import ComponentProjects.Proofs.Import.Found
import ComponentProjects.Proofs.Path.Converted

/-! A search does not depend on how the importing file is spelled. Candidates are made of text, but
all of a candidate that is not the directory's own is the same under every spelling, and files are
told by the components of their paths. -/
namespace ComponentProjects

section Related

variable {α β γ δ : Type} {R : α → β → Prop} {S : γ → δ → Prop}

theorem rel_refl {R : α → α → Prop} (refl : ∀ a, R a a) : ∀ a? : Option α, Option.Rel R a? a?
  | none => .none
  | some a => .some (refl a)

theorem rel_or {a c : Option α} {b d : Option β} (first : Option.Rel R a b)
    (second : Option.Rel R c d) : Option.Rel R (a.or c) (b.or d) := by
  cases first with
  | none => exact second
  | some related => exact .some related

theorem rel_map {f : α → γ} {g : β → δ} {a : Option α} {b : Option β}
    (step : ∀ a b, R a b → S (f a) (g b)) (related : Option.Rel R a b) :
    Option.Rel S (a.map f) (b.map g) := by
  cases related with
  | none => exact .none
  | some related => exact .some (step _ _ related)

theorem rel_isSome {a : Option α} {b : Option β} (related : Option.Rel R a b) :
    a.isSome = b.isSome := by
  cases related <;> rfl

theorem rel_sides {R : α → β → Prop} {S : α → γ → Prop} {T : β → δ → Prop} {U : γ → δ → Prop}
    (step : ∀ a b c d, R a b → S a c → T b d → U c d) {a : Option α} {b : Option β} {c : Option γ}
    {d : Option δ} (related : Option.Rel R a b) (one : Option.Rel S a c)
    (other : Option.Rel T b d) : Option.Rel U c d := by
  cases related with
  | none =>
    cases one
    cases other
    exact .none
  | some related =>
    cases one with
    | some one =>
      cases other with
      | some other => exact .some (step _ _ _ _ related one other)

/-- Two searches that agree on every trial find the same one. -/
theorem rel_find?_map {f : γ → α} {g : γ → β} {test : α → Bool} {trial : β → Bool}
    (related : ∀ c, R (f c) (g c)) (agree : ∀ c, test (f c) = trial (g c)) (cs : List γ) :
    Option.Rel R ((cs.map f).find? test) ((cs.map g).find? trial) := by
  induction cs with
  | nil => exact .none
  | cons c rest ih =>
    rw [List.map_cons, List.map_cons, List.find?_cons, List.find?_cons, agree c]
    cases trial (g c) with
    | true => exact .some (related c)
    | false => exact ih

theorem rel_findSome? {f : γ → Option α} {g : δ → Option β} {cs : List γ} {ds : List δ}
    (along : List.Forall₂ S cs ds) (step : ∀ c d, S c d → Option.Rel R (f c) (g d)) :
    Option.Rel R (cs.findSome? f) (ds.findSome? g) := by
  induction along with
  | nil => exact .none
  | @cons c d cs ds related _ ih =>
    have here := step c d related
    rw [List.findSome?_cons, List.findSome?_cons]
    generalize f c = a?, g d = b? at here ⊢
    cases here with
    | none => exact ih
    | some related => exact .some related

end Related

/-- A tree whose answers go by the components of a path. -/
structure FileTree.Componentwise (tree : FileTree) : Prop where
  isFile : ∀ p q : Path, p.Same q → (tree.isFile p).value = (tree.isFile q).value
  contents : ∀ p q : Path, p.Same q → (tree.contents? p).value = (tree.contents? q).value
  isDirectory : ∀ p q : Path, p.Same q → (tree.isDirectory p).value = (tree.isDirectory q).value

theorem MemoryFiles.componentwise (files : Table Path String) : (treeOf files).Componentwise where
  isFile _ _ same := congrArg Option.isSome (files.get?_congr same.rank_eq)
  contents _ _ same := files.get?_congr same.rank_eq
  isDirectory p q same := by
    have alike (file : Path) : file.isBeneath p = file.isBeneath q := by
      have within : file.startsWith p = file.startsWith q :=
        congrArg (fun parts => parts.isPrefixOf file.components) same
      have itself : decide (file.Same p) = decide (file.Same q) :=
        decide_eq_decide.mpr ⟨(·.trans same), (·.trans same.symm)⟩
      rw [Path.isBeneath, Path.isBeneath, within, itself]
    exact congrArg files.keys.any (funext alike)

/-- Two spellings that a module is handed out alike by. -/
structure ServedAlike (p q : Path) : Prop where
  same : p.Same q
  converted : p.isConverted = q.isConverted
  real : p.real.Same q.real
  extension : scriptExtension p = scriptExtension q

structure Resolution.Alike (r s : Resolution) : Prop where
  path : ServedAlike r.path s.path
  external : r.external = s.external

namespace ServedAlike

variable {p q r : Path}

theorem refl (p : Path) : ServedAlike p p := ⟨.refl p, rfl, .refl _, rfl⟩

theorem join (same : p.Same q) (r : Path) : ServedAlike (p.join r) (q.join r) where
  same := same.join r
  converted := same.isConverted_join r
  real := same.real_join r
  extension := by
    have plain : '/' ∉ ".d.ts".toList := by decide
    simp only [scriptExtension, Path.endsWith_join plain, (same.join r).extension?_eq]

end ServedAlike

namespace Import

variable {p q : Path}

theorem isAbsolute_append {front back : List Char} (named : front ≠ [] ∨ back.head? ≠ some '/') :
    (⟨front ++ back⟩ : Path).isAbsolute = (⟨front⟩ : Path).isAbsolute := by
  cases front with
  | nil => simp_all [Path.isAbsolute]
  | cons c front => rfl

theorem join_withEnding {ending : String} (plain : ending.toList.head? ≠ some '/') (p q : Path) :
    (p.join q).withEnding ending = p.join (q.withEnding ending) := by
  have alike : (q.withEnding ending).isAbsolute = q.isAbsolute := isAbsolute_append (.inr plain)
  by_cases absolute : q.isAbsolute = true
  · rw [Path.join_of_absolute absolute, Path.join_of_absolute (alike.trans absolute)]
  · have relative : q.isAbsolute = false := by simpa using absolute
    rw [Path.join_of_relative relative, Path.join_of_relative (alike.trans relative)]
    simp [Path.withEnding]

/-- What stands before an ending of a joined path is read from the same directory. -/
theorem beforeEnding?_join {ending : List Char} (plain : '/' ∉ ending) (p q : Path) :
    (Text.beforeEnding? ending (p.join q).text).map Path.mk =
      (Text.beforeEnding? ending q.text).map fun stem => p.join ⟨stem⟩ := by
  have alike : ∀ stem, Text.beforeEnding? ending q.text = some stem →
      (⟨stem⟩ : Path).isAbsolute = q.isAbsolute := by
    intro stem found
    have head : ending.head? ≠ some '/' := plain ∘ List.mem_of_mem_head?
    rw [← isAbsolute_append (.inr head), ← Text.beforeEnding?_eq_some_iff.mp found]
  by_cases absolute : q.isAbsolute = true
  · rw [Path.join_of_absolute absolute]
    refine Option.map_congr fun stem found => ?_
    rw [Path.join_of_absolute ((alike stem found).trans absolute)]
  · have relative : q.isAbsolute = false := by simpa using absolute
    rw [Path.join_of_relative relative, Path.beforeEnding?_front plain, Option.map_map]
    refine Option.map_congr fun stem found => ?_
    rw [Path.join_of_relative ((alike stem found).trans relative)]
    rfl

theorem sources_join (p q : Path) : sources (p.join q) = (sources q).map p.join := by
  have plain : ∀ pair ∈ sourceEndings, '/' ∉ pair.1.toList ∧ pair.2.toList.head? ≠ some '/' := by
    decide
  unfold sources
  rw [List.map_filterMap]
  refine List.filterMap_congr fun ⟨output, source⟩ member => ?_
  obtain ⟨outputPlain, sourcePlain⟩ := plain _ member
  calc (Text.beforeEnding? output.toList (p.join q).text).map (fun stem => ⟨stem ++ source.toList⟩)
      = ((Text.beforeEnding? output.toList (p.join q).text).map Path.mk).map
          (·.withEnding source) := by
        rw [Option.map_map]
        rfl
    _ = (Text.beforeEnding? output.toList q.text).map
          fun stem => (p.join ⟨stem⟩).withEnding source := by
        rw [beforeEnding?_join outputPlain, Option.map_map]
        rfl
    _ = ((Text.beforeEnding? output.toList q.text).map
          fun stem => (⟨stem ++ source.toList⟩ : Path)).map p.join := by
        simp only [join_withEnding sourcePlain, Option.map_map]
        rfl

/-- The candidates of a joined path are those of what is joined, read from the directory. -/
theorem candidates_join (p q : Path) : candidates (p.join q) = (candidates q).map p.join := by
  have known : knownEndings.any (p.join q).endsWith = knownEndings.any q.endsWith := by
    have plain : ∀ ending ∈ knownEndings, '/' ∉ ending.toList := by decide
    rw [Bool.eq_iff_iff, List.any_eq_true, List.any_eq_true]
    refine exists_congr fun ending => and_congr_right fun member => ?_
    rw [Path.endsWith_join (plain ending member)]
  have implied : impliedEndings.map (p.join q).withEnding =
      (impliedEndings.map q.withEnding).map p.join := by
    have plain : ∀ ending ∈ impliedEndings, ending.toList.head? ≠ some '/' := by decide
    rw [List.map_map]
    exact List.map_congr_left fun ending member => join_withEnding (plain ending member) p q
  rw [candidates, candidates, sources_join, known, implied]
  split <;> simp

variable {tree : FileTree} {preprocess : Preprocessor} {dir other : Path}

theorem isConverted_manifest (dir : Path) : (dir.join manifestName).isConverted = false := by
  refine Bool.eq_false_iff.mpr fun converted => ?_
  have script := Path.endsWith_of_isConverted converted
  rw [Path.endsWith_join (by decide)] at script
  exact absurd script (by decide)

theorem contents?_manifest (componentwise : tree.Componentwise) (same : p.Same q) :
    ((tree.templated preprocess).contents? (p.join manifestName)).value =
      ((tree.templated preprocess).contents? (q.join manifestName)).value := by
  simp only [FileTree.templated, isConverted_manifest, Bool.false_eq_true, if_false]
  exact componentwise.contents _ _ (same.join manifestName)

theorem entryName?_same (componentwise : tree.Componentwise) (same : p.Same q) :
    entryName? (tree.templated preprocess) p = entryName? (tree.templated preprocess) q := by
  rw [entryName?, entryName?, contents?_manifest componentwise same]

theorem asFile_join (componentwise : tree.Componentwise) (same : p.Same q) (r : Path) :
    Option.Rel ServedAlike (asFile (tree.templated preprocess) (p.join r)).value
      (asFile (tree.templated preprocess) (q.join r)).value := by
  rw [value_asFile, value_asFile, candidates_join, candidates_join]
  exact rel_find?_map (ServedAlike.join same)
    (fun c => componentwise.isFile _ _ (same.real_join c)) (candidates r)

theorem asDirectory_join (componentwise : tree.Componentwise) (same : p.Same q) :
    Option.Rel ServedAlike (asDirectory (tree.templated preprocess) p).value
      (asDirectory (tree.templated preprocess) q).value := by
  -- an entry is worked out to its plainest spelling, so not even its spelling differs
  have entries : (asEntry (tree.templated preprocess) p).value =
      (asEntry (tree.templated preprocess) q).value := by
    rw [value_asEntry, value_asEntry, entryName?_same componentwise same]
    simp only [(same.join _).normal_eq]
  rw [value_asDirectory, value_asDirectory, entries]
  exact rel_or (rel_refl ServedAlike.refl _) (asFile_join componentwise same _)

theorem asFileOrDirectory_join (componentwise : tree.Componentwise) (same : p.Same q) (r : Path) :
    Option.Rel ServedAlike (asFileOrDirectory (tree.templated preprocess) (p.join r)).value
      (asFileOrDirectory (tree.templated preprocess) (q.join r)).value := by
  rw [value_asFileOrDirectory, value_asFileOrDirectory]
  exact rel_or (asFile_join componentwise same r) (asDirectory_join componentwise (same.join r))

theorem inPackages_alike (componentwise : tree.Componentwise) (specifier : String)
    (same : dir.Same other) :
    Option.Rel ServedAlike (inPackages (tree.templated preprocess) specifier dir).value
      (inPackages (tree.templated preprocess) specifier other).value := by
  have packages := same.join packageDirectory
  have there : ((tree.templated preprocess).isDirectory (dir.join packageDirectory)).value =
      ((tree.templated preprocess).isDirectory (other.join packageDirectory)).value :=
    componentwise.isDirectory _ _ packages
  rw [value_inPackages, value_inPackages, there]
  split
  · exact rel_or (asFileOrDirectory_join componentwise packages _)
      (asFileOrDirectory_join componentwise (packages.join _) _)
  · exact .none

/-- However the importing file is spelled, a specifier names one file in it. -/
theorem search_alike (componentwise : tree.Componentwise) (options : Options) (specifier : String)
    (same : p.Same q) :
    Option.Rel Resolution.Alike
      (search (tree.templated preprocess) options specifier p).value
      (search (tree.templated preprocess) options specifier q).value := by
  have dirs : (directoryOf p).Same (directoryOf q) := by
    have parents := same.parent?
    unfold directoryOf
    generalize p.parent? = a?, q.parent? = b? at parents ⊢
    cases parents with
    | none => exact .refl _
    | some parents => exact parents
  rw [value_search, value_search, (dirs.join _).normal_eq]
  split
  · exact rel_refl (fun r => ⟨.refl r.path, rfl⟩) _
  · refine rel_or (rel_refl (fun r => ⟨.refl r.path, rfl⟩) _) ?_
    refine rel_map (fun _ _ alike => ⟨alike, rfl⟩) ?_
    exact rel_findSome? dirs.ancestors fun _ _ => inPackages_alike componentwise specifier

end Import
end ComponentProjects
