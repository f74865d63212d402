import ComponentProjects.Import.Search
import ComponentProjects.Proofs.Path.Converted

/-! What a search for an import comes to, its notes left aside: the alternatives it tries, in their
order. Whatever it finds is a file of the tree under one of the endings that scripts have. -/
namespace ComponentProjects.Import

variable {tree : FileTree} {base dir p : Path}

theorem value_firstFile (tree : FileTree) (ps : List Path) :
    (tree.firstFile ps).value = ps.find? fun p => (tree.isFile p).value := by
  rw [FileTree.firstFile, Noted.value_firstSome]
  induction ps with
  | nil => rfl
  | cons p rest ih =>
    rw [List.findSome?_cons, List.find?_cons, ih]
    simp only [FileTree.file?, Noted.value_bind, Noted.value_pure]
    cases (tree.isFile p).value <;> simp

theorem value_asFile (tree : FileTree) (base : Path) :
    (asFile tree base).value = (candidates base).find? fun p => (tree.isFile p).value :=
  value_firstFile tree _

/-- The entry file as a directory's manifest names it. -/
def entryName? (tree : FileTree) (dir : Path) : Option String :=
  (tree.contents? (dir.join manifestName)).value.bind fun text => (declaredMain? text).join

theorem value_asEntry (tree : FileTree) (dir : Path) : (asEntry tree dir).value =
    (entryName? tree dir).bind fun entry =>
      (asFile tree (dir.join (.ofString entry)).normal).value := by
  simp only [asEntry, entryName?, Noted.value_bind]
  split
  · rename_i none
    rw [none]
    rfl
  · rename_i entry some
    rw [some]
    rfl

theorem value_asDirectory (tree : FileTree) (dir : Path) : (asDirectory tree dir).value =
    (asEntry tree dir).value.or (asFile tree (dir.join (.ofString "index"))).value := by
  simp only [asDirectory, Noted.value_bind]
  split <;> simp_all

theorem value_asFileOrDirectory (tree : FileTree) (base : Path) :
    (asFileOrDirectory tree base).value =
      (asFile tree base).value.or (asDirectory tree base).value := by
  simp only [asFileOrDirectory, Noted.value_bind]
  split <;> simp_all

theorem value_inPackages (tree : FileTree) (specifier : String) (dir : Path) :
    (inPackages tree specifier dir).value =
      if (tree.isDirectory (dir.join packageDirectory)).value then
        (asFileOrDirectory tree
          ((dir.join packageDirectory).join (.ofString specifier))).value.or
        (asFileOrDirectory tree (((dir.join packageDirectory).join (.ofString "@types")).join
          (.ofString (typingsName specifier)))).value
      else none := by
  simp only [inPackages, Noted.value_bind]
  split
  · simp only [Noted.value_bind]
    split <;> simp_all
  · rfl

theorem value_fromBaseUrl (tree : FileTree) (options : Options) (specifier : String) :
    (fromBaseUrl tree options specifier).value = options.baseUrl?.bind fun base =>
      (asFileOrDirectory tree (base.join (.ofString specifier)).normal).value := by
  unfold fromBaseUrl
  split <;> simp_all

/-- The directory that a file's relative specifiers are read from. -/
def directoryOf (importer : Path) : Path := importer.parent?.getD (.ofString "/")

theorem value_search (tree : FileTree) (options : Options) (specifier : String) (importer : Path) :
    (search tree options specifier importer).value =
      if isRelative specifier ∨ (Path.ofString specifier).isAbsolute then
        (asFileOrDirectory tree
          ((directoryOf importer).join (.ofString specifier)).normal).value.map (⟨·, false⟩)
      else ((fromBaseUrl tree options specifier).value.map (⟨·, false⟩)).or
        (((directoryOf importer).ancestors.findSome? fun dir =>
          (inPackages tree specifier dir).value).map (⟨·, true⟩)) := by
  simp only [search, directoryOf]
  split
  · simp only [Noted.value_bind, Noted.value_pure]
  · simp only [Noted.value_bind]
    split
    · rename_i path based
      rw [based]
      rfl
    · rename_i missing
      simp only [missing, Option.map_none, Option.none_or, Noted.value_bind, Noted.value_pure,
        Noted.firstUpward_eq, Noted.value_firstSome]

/-- A file of the tree that some base may stand for. -/
structure Found (tree : FileTree) (p : Path) : Prop where
  candidate : ∃ base, p ∈ candidates base
  isFile : (tree.isFile p).value = true

theorem found_of_asFile (found : (asFile tree base).value = some p) : Found tree p := by
  rw [value_asFile] at found
  have isFile := List.find?_some found
  exact ⟨⟨base, List.mem_of_find?_eq_some found⟩, isFile⟩

theorem found_of_asDirectory (found : (asDirectory tree dir).value = some p) : Found tree p := by
  rw [value_asDirectory, value_asEntry] at found
  rcases Option.or_eq_some_iff.mp found with entry | ⟨-, index⟩
  · obtain ⟨_, -, file⟩ := Option.bind_eq_some_iff.mp entry
    exact found_of_asFile file
  · exact found_of_asFile index

theorem found_of_asFileOrDirectory (found : (asFileOrDirectory tree base).value = some p) :
    Found tree p := by
  rw [value_asFileOrDirectory] at found
  rcases Option.or_eq_some_iff.mp found with file | ⟨-, directory⟩
  · exact found_of_asFile file
  · exact found_of_asDirectory directory

theorem found_of_inPackages {specifier : String}
    (found : (inPackages tree specifier dir).value = some p) : Found tree p := by
  rw [value_inPackages] at found
  split at found
  · rcases Option.or_eq_some_iff.mp found with own | ⟨-, typings⟩
    · exact found_of_asFileOrDirectory own
    · exact found_of_asFileOrDirectory typings
  · cases found

theorem found_of_search {options : Options} {specifier : String} {importer : Path} {r : Resolution}
    (found : (search tree options specifier importer).value = some r) : Found tree r.path := by
  rw [value_search] at found
  split at found
  · obtain ⟨_, file, rfl⟩ := Option.map_eq_some_iff.mp found
    exact found_of_asFileOrDirectory file
  · rcases Option.or_eq_some_iff.mp found with based | ⟨-, packaged⟩
    · obtain ⟨_, file, rfl⟩ := Option.map_eq_some_iff.mp based
      rw [value_fromBaseUrl] at file
      obtain ⟨_, -, file⟩ := Option.bind_eq_some_iff.mp file
      exact found_of_asFileOrDirectory file
    · obtain ⟨_, file, rfl⟩ := Option.map_eq_some_iff.mp packaged
      obtain ⟨_, -, file⟩ := List.exists_of_findSome?_eq_some file
      exact found_of_inPackages file

/-! Endings -/

theorem endsWith_withEnding (base : Path) (ending : String) :
    (base.withEnding ending).endsWith ending = true :=
  List.isSuffixOf_iff_suffix.mpr (List.suffix_append _ _)

/-- Every candidate has an ending that specifiers may carry. -/
theorem exists_ending_of_candidate (candidate : p ∈ candidates base) :
    ∃ ending ∈ knownEndings, p.endsWith ending = true := by
  rcases List.mem_append.mp candidate with named | implied
  · rcases List.mem_append.mp named with source | itself
    · obtain ⟨⟨output, ending⟩, member, made⟩ := List.mem_filterMap.mp source
      obtain ⟨stem, -, rfl⟩ := Option.map_eq_some_iff.mp made
      have known : ∀ pair ∈ sourceEndings, pair.2 ∈ knownEndings := by decide
      exact ⟨ending, known _ member, endsWith_withEnding ⟨stem⟩ ending⟩
    · split at itself
      · rename_i known
        rw [List.mem_singleton.mp itself]
        exact List.any_eq_true.mp known
      · cases itself
  · obtain ⟨ending, member, rfl⟩ := List.mem_map.mp implied
    have known : ∀ ending ∈ impliedEndings, ending ∈ knownEndings := by decide
    exact ⟨ending, known _ member, endsWith_withEnding base ending⟩

/-- No script's ending is that of a component file. -/
theorem not_component_of_known {ending : String} (known : ending ∈ knownEndings)
    (ends : p.endsWith ending = true) : p.endsWith ".widget" = false := by
  have apart : ∀ ending ∈ knownEndings, ending.toList ≠ [] ∧
      ending.toList.getLast? ≠ ".widget".toList.getLast? := by decide
  obtain ⟨some, other⟩ := apart ending known
  refine Bool.eq_false_iff.mpr fun component => other ?_
  rw [← Path.getLast?_of_endsWith some ends, Path.getLast?_of_endsWith (by decide) component]

/-- Nor is a file that has one a component by its extension. -/
theorem isTemplated_of_known {ending : String} (known : ending ∈ knownEndings)
    (ends : p.endsWith ending = true) : p.isTemplated = false := by
  have shape : ∀ ending ∈ knownEndings, '/' ∉ ending.toList ∧ 2 < ending.toList.length ∧
      ending.toList.getLast? ≠ some 't' ∧ ending.toList ≠ [] := by decide
  obtain ⟨plain, long, other, named⟩ := shape ending known
  obtain ⟨stem, text⟩ := List.isSuffixOf_iff_suffix.mp ends
  obtain ⟨parts, last, own⟩ := Path.exists_components_append stem
  have components := own ending.toList plain long
  rw [text] at components
  refine Bool.eq_false_iff.mpr fun component => other ?_
  have extension : Path.extensionOf (last ++ ending.toList) = some Path.templatedExtension := by
    simpa [Path.isTemplated, Path.extension?, Path.fileName?, components] using component
  obtain ⟨front, whole⟩ := Path.suffix_of_extensionOf extension
  have closing : (last ++ ending.toList).getLast? = ending.toList.getLast? :=
    List.getLast?_append_of_ne_nil _ named
  rw [← closing, ← whole]
  exact List.getLast?_append_of_ne_nil front (by decide)

end ComponentProjects.Import
