import ComponentProjects.Proofs.Import.Spelling
import ComponentProjects.Proofs.Table.Reading

/-! The search for an import as one list of files in the order they are tried: it finds the first of
them that is there. A directory that has no packages is passed over without a look at its files, and
this does not show, as no specifier leads from a directory to a file outside of it. -/
namespace ComponentProjects

namespace Import

variable {p q dir base : Path} {files : Table Path String} {preprocess : Preprocessor}
  {specifier : String}

/-- The component file behind a converted path is read from the same directory. -/
theorem exists_real_join (relative : q.isAbsolute = false)
    (converted : (p.join q).isConverted = true) :
    ∃ file : Path, file.isAbsolute = false ∧ (p.join q).real = p.join file := by
  obtain ⟨_, found⟩ := Path.isConverted_iff.mp converted
  obtain ⟨stem, whole, rfl, -⟩ := Path.realText?_eq_some_iff.mp found
  have cut := beforeEnding?_join (show '/' ∉ Path.scriptEnding by decide) p q
  rw [Text.beforeEnding?_eq_some_iff.mpr whole, Option.map_some] at cut
  obtain ⟨own, before, file⟩ := Option.map_eq_some_iff.mp cut.symm
  refine ⟨⟨own⟩, ?_, ?_⟩
  · have text := Text.beforeEnding?_eq_some_iff.mp before
    have alike : (⟨own ++ Path.scriptEnding⟩ : Path).isAbsolute = (⟨own⟩ : Path).isAbsolute :=
      isAbsolute_append (.inr (by decide))
    rw [← alike, ← text]
    exact relative
  · rw [Path.real_eq_of_realText? found, file]

theorem isAbsolute_of_candidate (candidate : p ∈ candidates base) :
    p.isAbsolute = base.isAbsolute := by
  rcases List.mem_append.mp candidate with named | implied
  · rcases List.mem_append.mp named with source | itself
    · obtain ⟨⟨output, ending⟩, member, made⟩ := List.mem_filterMap.mp source
      obtain ⟨stem, before, rfl⟩ := Option.map_eq_some_iff.mp made
      have plain : ∀ pair ∈ sourceEndings, pair.1.toList.head? ≠ some '/' ∧
          pair.2.toList.head? ≠ some '/' := by decide
      obtain ⟨outputPlain, endingPlain⟩ := plain _ member
      have whole : base = ⟨stem ++ output.toList⟩ := by
        rw [← Text.beforeEnding?_eq_some_iff.mp before]
      rw [whole, isAbsolute_append (.inr endingPlain), isAbsolute_append (.inr outputPlain)]
    · split at itself
      · rw [List.mem_singleton.mp itself]
      · cases itself
  · obtain ⟨ending, member, rfl⟩ := List.mem_map.mp implied
    have plain : ∀ ending ∈ impliedEndings, ending.toList.head? ≠ some '/' := by decide
    exact isAbsolute_append (.inr (plain ending member))

/-- What a candidate stands for lies beneath the directory that its base is read from. -/
theorem isBeneath_of_candidate (relative : q.isAbsolute = false) (named : dir.text ≠ [])
    (candidate : p ∈ candidates (dir.join q)) : p.real.isBeneath dir = true := by
  rw [candidates_join] at candidate
  obtain ⟨own, member, rfl⟩ := List.mem_map.mp candidate
  have relative : own.isAbsolute = false := (isAbsolute_of_candidate member).trans relative
  cases converted : (dir.join own).isConverted with
  | false =>
    obtain ⟨ending, known, ends⟩ := exists_ending_of_candidate member
    have proper : ∀ ending ∈ knownEndings, '/' ∉ ending.toList ∧ 2 < ending.toList.length := by
      decide
    obtain ⟨plain, long⟩ := proper ending known
    rw [Path.real_eq_self converted]
    exact Path.isBeneath_join relative named (Path.behind_ne_nil plain long ends)
  | true =>
    obtain ⟨file, unrooted, real⟩ := exists_real_join relative converted
    have ends : file.endsWith ".widget" = true := by
      have component := Path.endsWith_real converted
      rwa [real, Path.endsWith_join (by decide)] at component
    rw [real]
    exact Path.isBeneath_join unrooted named (Path.behind_ne_nil (by decide) (by decide) ends)

theorem isDirectory_of_beneath (there : files.contains p = true)
    (beneath : p.isBeneath dir = true) :
    ((MemoryFiles.treeOf files).isDirectory dir).value = true := by
  obtain ⟨text, held⟩ := Option.isSome_iff_exists.mp there
  obtain ⟨key, member, same⟩ := Table.get?_eq_some_iff.mp held
  refine List.any_eq_true.mpr ⟨key, List.mem_map.mpr ⟨_, member, rfl⟩, ?_⟩
  rwa [(Path.rank_eq_iff_same.mp same).isBeneath_eq]

theorem isDirectory_of_startsWith (within : p.startsWith dir = true)
    (directory : ((MemoryFiles.treeOf files).isDirectory p).value = true) :
    ((MemoryFiles.treeOf files).isDirectory dir).value = true := by
  obtain ⟨key, member, beneath⟩ := List.any_eq_true.mp directory
  exact List.any_eq_true.mpr ⟨key, member, Path.isBeneath_of_startsWith beneath within⟩

/-! Manifests -/

/-- What a manifest says of a package's files. -/
structure Manifest where
  types : Option String
  typings : Option String
  main : Option String

namespace Manifest

/-- A text that is no record of these fields is no manifest. -/
def ofText? (text : String) : Option Manifest := do
  let outline ← Json.Outline.ofText? text.toList
  match ← outline.record? ["types", "typings", "main"] with
  | [types, typings, main] =>
    let types ← Json.Outline.optional? Json.Outline.string? types
    let typings ← Json.Outline.optional? Json.Outline.string? typings
    let main ← Json.Outline.optional? Json.Outline.string? main
    return ⟨types, typings, main⟩
  | _ => none

def entry? (manifest : Manifest) : Option String :=
  (manifest.types.or manifest.typings).or manifest.main

theorem declaredMain?_eq (text : String) :
    declaredMain? text = (ofText? text).map entry? := by
  simp only [declaredMain?, ofText?, Option.bind_eq_bind, Option.map_bind]
  refine Option.bind_congr fun outline _ => ?_
  rw [Function.comp_apply, Option.map_bind]
  refine Option.bind_congr fun fields _ => ?_
  rw [Function.comp_apply]
  split <;> simp [Option.map_bind, Function.comp_def, entry?]

end Manifest

/-! The ordered search -/

/-- The files that a base may stand for. -/
def tried (base : Path) : List Path :=
  (Text.beforeEnding? ".js".toList base.text).toList.map (fun stem => ⟨stem ++ ".ts".toList⟩) ++
  (Text.beforeEnding? ".jsx".toList base.text).toList.map (fun stem => ⟨stem ++ ".tsx".toList⟩) ++
  (if [".ts", ".tsx", ".d.ts", ".js", ".jsx", ".mjs", ".cjs", ".json"].any base.endsWith
    then [base] else []) ++
  [".ts", ".tsx", ".d.ts", ".js", ".jsx"].map base.withEnding

/-- The entry that a directory's manifest names, worked out by the text. -/
def entries (files : Table Path String) (dir : Path) : List Path :=
  (((files.get? (dir.join manifestName)).bind Manifest.ofText?).bind Manifest.entry?).toList.map
    fun entry => (dir.join (.ofString entry)).normal

/-- The files that a base may lead to: as a file, and then as a directory. -/
def places (files : Table Path String) (base : Path) : List Path :=
  tried base ++ (entries files base).flatMap tried ++ tried (base.join (.ofString "index"))

/-- The files that a specifier may lead to among the packages of a directory. -/
def installed (files : Table Path String) (specifier : String) (dir : Path) : List Path :=
  places files ((dir.join packageDirectory).join (.ofString specifier)) ++
  places files (((dir.join packageDirectory).join (.ofString "@types")).join
    (.ofString (typingsName specifier)))

/-- The files that a specifier may lead to without a look at packages. -/
def direct (files : Table Path String) (options : Options) (specifier : String)
    (importer : Path) : List Path :=
  if isRelative specifier ∨ (Path.ofString specifier).isAbsolute then
    places files ((directoryOf importer).join (.ofString specifier)).normal
  else options.baseUrl?.toList.flatMap fun base =>
    places files (base.join (.ofString specifier)).normal

/-- The files that a specifier may lead to among packages, from the importing file's directory
upward. No directory is asked for. -/
def packaged (files : Table Path String) (specifier : String) (importer : Path) : List Path :=
  if isRelative specifier ∨ (Path.ofString specifier).isAbsolute then []
  else (directoryOf importer).ancestors.flatMap (installed files specifier)

/-- Everything that a specifier may lead to, in order. -/
def inOrder (files : Table Path String) (options : Options) (specifier : String)
    (importer : Path) : List Resolution :=
  (direct files options specifier importer).map (⟨·, false⟩) ++
    (packaged files specifier importer).map (⟨·, true⟩)

/-- Whether a file is there, or the component file behind it. -/
def There (files : Table Path String) (p : Path) : Prop := files.contains p.real = true

instance (files : Table Path String) (p : Path) : Decidable (There files p) :=
  inferInstanceAs (Decidable (_ = true))

theorem candidates_eq (base : Path) : candidates base = tried base := by
  have source : sources base =
      (Text.beforeEnding? ".js".toList base.text).toList.map (fun stem => ⟨stem ++ ".ts".toList⟩) ++
      (Text.beforeEnding? ".jsx".toList base.text).toList.map
        fun stem => ⟨stem ++ ".tsx".toList⟩ := by
    simp only [sources, sourceEndings, List.filterMap_cons, List.filterMap_nil]
    cases Text.beforeEnding? ".js".toList base.text <;>
      cases Text.beforeEnding? ".jsx".toList base.text <;> rfl
  rw [candidates, source]
  rfl

theorem find?_there (ps : List Path) :
    (ps.find? fun p => (((MemoryFiles.treeOf files).templated preprocess).isFile p).value) =
      ps.find? (There files ·) :=
  congrArg ps.find? (funext fun _ => Bool.decide_eq_true.symm)

theorem value_asFile_memory (base : Path) :
    (asFile ((MemoryFiles.treeOf files).templated preprocess) base).value =
      (tried base).find? (There files ·) := by
  rw [value_asFile, candidates_eq, find?_there]

theorem value_asEntry_memory (dir : Path) :
    (asEntry ((MemoryFiles.treeOf files).templated preprocess) dir).value =
      ((entries files dir).flatMap tried).find? (There files ·) := by
  have named : entryName? ((MemoryFiles.treeOf files).templated preprocess) dir =
      ((files.get? (dir.join manifestName)).bind Manifest.ofText?).bind Manifest.entry? := by
    have contents : (((MemoryFiles.treeOf files).templated preprocess).contents?
        (dir.join manifestName)).value = files.get? (dir.join manifestName) := by
      simp only [FileTree.templated, isConverted_manifest]
      rfl
    rw [entryName?, contents, Option.bind_assoc]
    refine Option.bind_congr fun text _ => ?_
    rw [Manifest.declaredMain?_eq]
    cases Manifest.ofText? text <;> rfl
  rw [value_asEntry, named, entries]
  cases ((files.get? (dir.join manifestName)).bind Manifest.ofText?).bind Manifest.entry? with
  | none => rfl
  | some entry => simp [value_asFile_memory]

theorem value_asFileOrDirectory_memory (base : Path) :
    (asFileOrDirectory ((MemoryFiles.treeOf files).templated preprocess) base).value =
      (places files base).find? (There files ·) := by
  rw [value_asFileOrDirectory, value_asDirectory, value_asFile_memory, value_asEntry_memory,
    value_asFile_memory, places, List.find?_append, List.find?_append, Option.or_assoc]

/-! Directories without packages -/

/-- Whatever is there of the places of a base shows the directory that the base is read from. -/
theorem isDirectory_of_place (relative : q.isAbsolute = false) (named : dir.text ≠ [])
    (place : p ∈ places files (dir.join q)) (there : There files p) :
    ((MemoryFiles.treeOf files).isDirectory dir).value = true := by
  have within := Path.startsWith_join relative named
  have base : (dir.join q).text ≠ [] := fun none => named (Path.text_join_eq_nil_iff.mp none).1
  rcases List.mem_append.mp place with first | index
  · rcases List.mem_append.mp first with file | entry
    · rw [← candidates_eq] at file
      exact isDirectory_of_beneath there (isBeneath_of_candidate relative named file)
    · -- an entry may be anywhere, but the manifest that names it is in the directory
      obtain ⟨_, entry, -⟩ := List.mem_flatMap.mp entry
      obtain ⟨name, declared, -⟩ := List.mem_map.mp entry
      obtain ⟨_, read, -⟩ := Option.bind_eq_some_iff.mp (Option.mem_toList.mp declared)
      obtain ⟨text, held, -⟩ := Option.bind_eq_some_iff.mp read
      have manifest : ((dir.join q).join manifestName).isBeneath (dir.join q) = true :=
        Path.isBeneath_join (by decide) base (by decide)
      exact isDirectory_of_beneath (Option.isSome_of_eq_some held)
        (Path.isBeneath_of_startsWith manifest within)
  · rw [← candidates_eq] at index
    have beneath := isBeneath_of_candidate (by decide) base index
    exact isDirectory_of_beneath there (Path.isBeneath_of_startsWith beneath within)

theorem isAbsolute_takeWhile (name : List Char) :
    (⟨name.takeWhile (· ≠ '/')⟩ : Path).isAbsolute = false := by
  cases name with
  | nil => rfl
  | cons c rest => by_cases slash : c = '/' <;> simp [Path.isAbsolute, slash]

theorem isAbsolute_typingsName (relative : (Path.ofString specifier).isAbsolute = false) :
    (Path.ofString (typingsName specifier)).isAbsolute = false := by
  unfold typingsName
  split
  · rename_i name _
    have own := isAbsolute_takeWhile name
    split
    · have joint (scope : List Char) : (['_', '_'] ++ scope).head? ≠ some '/' := by simp
      rw [Path.ofString, String.toList_ofList, List.append_assoc,
        isAbsolute_append (.inr (joint _))]
      exact own
    · rename_i whole
      have parts := List.takeWhile_append_dropWhile (p := (· ≠ '/')) (l := name)
      rw [whole, List.append_nil] at parts
      rwa [Path.ofString, String.toList_ofList, ← parts]
  · exact relative

/-- The scope of a package goes into the name of its typings. -/
theorem typingsName_scoped {scope : List Char} (plain : '/' ∉ scope) (name : List Char) :
    typingsName (.ofList ('@' :: scope ++ '/' :: name)) =
      .ofList (scope ++ ['_', '_'] ++ name) := by
  have others : ∀ c ∈ scope, decide (c ≠ '/') = true := by
    intro c member
    have apart : c ≠ '/' := fun slash => plain (slash ▸ member)
    simpa using apart
  unfold typingsName
  simp only [String.toList_ofList, List.cons_append]
  rw [List.takeWhile_append_of_pos others, List.dropWhile_append_of_pos others]
  simp

theorem value_inPackages_memory (relative : (Path.ofString specifier).isAbsolute = false)
    (dir : Path) :
    (inPackages ((MemoryFiles.treeOf files).templated preprocess) specifier dir).value =
      (installed files specifier dir).find? (There files ·) := by
  have packages : (dir.join packageDirectory).text ≠ [] := fun none =>
    absurd (Path.text_join_eq_nil_iff.mp none).2 (by decide)
  have typings : ((dir.join packageDirectory).join (.ofString "@types")).text ≠ [] := fun none =>
    packages (Path.text_join_eq_nil_iff.mp none).1
  have inTypings := Path.startsWith_join (show (Path.ofString "@types").isAbsolute = false from rfl)
    packages
  rw [value_inPackages, installed, List.find?_append]
  split
  · rw [value_asFileOrDirectory_memory, value_asFileOrDirectory_memory]
  · rename_i missing
    -- the two searches that are left out would come to nothing
    have own : (places files ((dir.join packageDirectory).join (.ofString specifier))).find?
        (There files ·) = none := by
      refine List.find?_eq_none.mpr fun p place there => missing ?_
      exact isDirectory_of_place relative packages place (of_decide_eq_true there)
    have others : (places files (((dir.join packageDirectory).join (.ofString "@types")).join
        (.ofString (typingsName specifier)))).find? (There files ·) = none := by
      refine List.find?_eq_none.mpr fun p place there => missing ?_
      exact isDirectory_of_startsWith inTypings (isDirectory_of_place
        (isAbsolute_typingsName relative) typings place (of_decide_eq_true there))
    rw [own, others]
    rfl

/-- A search for an import finds the first file that is there of those it may lead to. -/
theorem value_search_memory (files : Table Path String) (preprocess : Preprocessor)
    (options : Options) (specifier : String) (importer : Path) :
    (search ((MemoryFiles.treeOf files).templated preprocess) options specifier importer).value =
      (inOrder files options specifier importer).find? (There files ·.path) := by
  have tagged (external : Bool) (ps : List Path) :
      (ps.map fun p => (⟨p, external⟩ : Resolution)).find? (There files ·.path) =
        (ps.find? (There files ·)).map (⟨·, external⟩) := List.find?_map
  rw [value_search, inOrder, List.find?_append, tagged, tagged, direct, packaged]
  split
  · rw [value_asFileOrDirectory_memory, List.find?_nil, Option.map_none, Option.or_none]
  · rename_i plain
    have relative : (Path.ofString specifier).isAbsolute = false := by
      simpa using fun absolute => plain (.inr absolute)
    have based : (fromBaseUrl ((MemoryFiles.treeOf files).templated preprocess) options
        specifier).value = (options.baseUrl?.toList.flatMap fun base =>
          places files (base.join (.ofString specifier)).normal).find? (There files ·) := by
      rw [value_fromBaseUrl]
      cases options.baseUrl? with
      | none => rfl
      | some base => simp [value_asFileOrDirectory_memory]
    have upward : ((directoryOf importer).ancestors.findSome? fun dir =>
        (inPackages ((MemoryFiles.treeOf files).templated preprocess) specifier dir).value) =
          ((directoryOf importer).ancestors.flatMap (installed files specifier)).find?
            (There files ·) := by
      simp only [List.find?_flatMap, value_inPackages_memory relative]
    rw [based, upward]

/-- A search finds a file just when it is the first that is there of all that the specifier may lead
to, in order, and nothing when none of them is there. It is told to be external when it is one of
the packages' files and nothing was there without them. -/
theorem search_first_there (files : Table Path String) (preprocess : Preprocessor)
    (options : Options) (specifier : String) (importer : Path) :
    let found := (search ((MemoryFiles.treeOf files).templated preprocess) options specifier
      importer).value
    let order := inOrder files options specifier importer
    (∀ r, found = some r ↔ There files r.path ∧ ∃ earlier later,
      order = earlier ++ r :: later ∧ ∀ e ∈ earlier, ¬ There files e.path) ∧
    (found = none ↔ ∀ r ∈ order, ¬ There files r.path) ∧
    (∀ r, found = some r → (r.external = true ↔
      r.path ∈ packaged files specifier importer ∧
        ∀ p ∈ direct files options specifier importer, ¬ There files p)) ∧
    (∀ scope name, specifier.toList = '@' :: scope ++ '/' :: name → '/' ∉ scope →
      typingsName specifier = .ofList (scope ++ ['_', '_'] ++ name)) ∧
    (specifier.toList.head? ≠ some '@' → typingsName specifier = specifier) := by
  intro found order
  have first : found = order.find? (There files ·.path) :=
    value_search_memory files preprocess options specifier importer
  refine ⟨fun r => ?_, ?_, fun r some => ?_, fun scope name text plain => ?_, fun unscoped => ?_⟩
  · rw [first, List.find?_eq_some_iff_append]
    simp
  · rw [first, List.find?_eq_none]
    simp
  · simp only [first, order, inOrder, List.find?_append] at some
    rcases Option.or_eq_some_iff.mp some with own | ⟨none, other⟩
    · obtain ⟨p, member, rfl⟩ := List.mem_map.mp (List.mem_of_find?_eq_some own)
      have found := List.find?_some own
      have there : There files p := of_decide_eq_true found
      constructor
      · intro external
        cases external
      · intro alone
        exact absurd there (alone.2 p member)
    · obtain ⟨p, member, rfl⟩ := List.mem_map.mp (List.mem_of_find?_eq_some other)
      refine ⟨fun _ => ⟨member, fun q own there => ?_⟩, fun _ => rfl⟩
      have absent := List.find?_eq_none.mp none ⟨q, false⟩ (List.mem_map.mpr ⟨q, own, rfl⟩)
      exact absent (decide_eq_true there)
  · rw [← typingsName_scoped plain name, ← text, String.ofList_toList]
  · unfold typingsName
    split
    · rename_i name text
      exact absurd (by rw [text]; rfl) unscoped
    · rfl

/-- The typings of a scoped package are looked for a directory further up. -/
example :
    let typings := Path.ofString "/p/node_modules/@types/a__b/index.d.ts"
    (inOrder (.ofList [(typings, "")]) ∅ "@a/b" (.ofString "/p/src/main.ts")).find?
      (There (.ofList [(typings, "")]) ·.path) = some ⟨typings, true⟩ := by
  decide

end Import

end ComponentProjects
