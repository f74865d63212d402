import ComponentProjects.Proofs.Import.Spelling
import ComponentProjects.Proofs.Table.Reading

/-! A resolver over files that stay as they are. Whatever it was asked and told to forget before, it
answers as a search would that remembers nothing; what it remembers, it does not look for again.
Only how a path is spelled can come from an earlier request. -/
namespace ComponentProjects

/-- Dialects that go by the path and are not looked up anywhere. -/
def fixedDialect (kind : Path → Dialect) (path : Path) (_ : Unit) : Noted (Dialect × Unit) :=
  pure (kind path, ())

/-- The module that a resolution is handed out as under fixed dialects. -/
def Resolution.shown (kind : Path → Dialect) (r : Resolution) : ResolvedModule :=
  (r.handOut (fixedDialect kind) ()).value.1

/-- A module is what a resolution stands for, whichever spelling of its file it gives. -/
structure Resolution.Shows (kind : Path → Dialect) (r : Resolution) (m : ResolvedModule) :
    Prop where
  file : m.file.Same r.path.real
  extension : m.extension =
    if r.path.isConverted then (kind m.file).componentExtension else scriptExtension r.path
  external : m.external = r.external

/-- Two modules that differ in how the file is spelled, and so in the path that its dialect is
asked for. -/
structure ResolvedModule.Alike (kind : Path → Dialect) (m n : ResolvedModule) : Prop where
  file : m.file.Same n.file
  extension : m.extension = n.extension ∨
    m.extension = (kind m.file).componentExtension ∧ n.extension = (kind n.file).componentExtension
  external : m.external = n.external

namespace Resolution

variable {kind : Path → Dialect} {r s : Resolution} {m n : ResolvedModule}

theorem shown_eq (kind : Path → Dialect) (r : Resolution) : r.shown kind =
    if r.path.isConverted then ⟨r.path.real, (kind r.path.real).componentExtension, r.external⟩
    else ⟨r.path, scriptExtension r.path, r.external⟩ := by
  unfold shown handOut
  split <;> rfl

theorem shows_shown (alike : r.Alike s) : s.Shows kind (r.shown kind) := by
  rw [shown_eq]
  split
  · rename_i converted
    have also : s.path.isConverted = true := alike.path.converted.symm.trans converted
    exact ⟨alike.path.real, (if_pos also).symm, alike.external⟩
  · rename_i plain
    have also : s.path.isConverted = false := by simpa [alike.path.converted] using plain
    refine ⟨?_, ?_, alike.external⟩
    · rw [Path.real_eq_self also]
      exact alike.path.same
    · rw [also]
      exact alike.path.extension

theorem Shows.alike (one : r.Shows kind m) (other : s.Shows kind n) (alike : r.Alike s) :
    m.Alike kind n where
  file := (one.file.trans alike.path.real).trans other.file.symm
  extension := by
    rw [one.extension, other.extension, alike.path.converted, alike.path.extension]
    split
    · exact .inr ⟨rfl, rfl⟩
    · exact .inl rfl
  external := one.external.trans (alike.external.trans other.external.symm)

end Resolution

namespace ImportCache

/-- A batch of specifiers of one file, with the cache it leaves. -/
def answer (view : FileTree) (options : Options) (kind : Path → Dialect) (cache : ImportCache)
    (specifiers : List String) (importer : Path) :
    Noted (List (Option ResolvedModule) × ImportCache) := do
  let (entries, cache, _) ← resolveAll view options (fixedDialect kind) importer specifiers cache ()
  return (entries, cache)

/-- A cache that any batches and purges may have led to, under whatever dialects. -/
inductive Reached (view : FileTree) (options : Options) : ImportCache → Prop where
  | empty : Reached view options ∅
  | answered {cache : ImportCache} (earlier : Reached view options cache) (kind : Path → Dialect)
      (specifiers : List String) (importer : Path) :
    Reached view options (cache.answer view options kind specifiers importer).value.2
  | purged {cache : ImportCache} (earlier : Reached view options cache) (path : Path) :
    Reached view options (cache.purge path)

/-- Everything remembered, also that nothing was found, is what a search comes to. -/
def Faithful (view : FileTree) (options : Options) (cache : ImportCache) : Prop :=
  ∀ request answer, cache.get? request = some answer → Option.Rel Resolution.Alike answer
    (Import.search view options request.specifier request.importer).value

variable {view tree : FileTree} {preprocess : Preprocessor} {options : Options}
  {kind : Path → Dialect} {cache other : ImportCache} {request : ImportRequest}

theorem rank_request_iff {q r : ImportRequest} :
    rank q = rank r ↔ q.specifier = r.specifier ∧ q.importer.Same r.importer := by
  have whole : rank q = rank r ↔
      rank q.specifier = rank r.specifier ∧ rank q.importer = rank r.importer := by
    simp only [rank, List.cons.injEq, and_true]
  rw [whole, rank_string_inj, Path.rank_eq_iff_same]

/-! One request -/

theorem resolve_of_cached {answer : Option Resolution} (cached : cache.get? request = some answer) :
    cache.resolve view options request = pure (answer, cache) := by
  rw [ImportCache.resolve, cached]

theorem resolve_of_missing (missing : cache.get? request = none) :
    (cache.resolve view options request).value =
      let found := (Import.search view options request.specifier request.importer).value
      (found, cache.insert request found) := by
  rw [ImportCache.resolve, missing]
  rfl

theorem resolve_kept {q : ImportRequest} {answer : Option Resolution}
    (cached : cache.get? q = some answer) :
    (cache.resolve view options request).value.2.get? q = some answer := by
  cases here : cache.get? request with
  | some known =>
    rw [resolve_of_cached here]
    exact cached
  | none =>
    rw [resolve_of_missing here, Table.get?_insert]
    split
    · rename_i same
      rw [Table.get?_congr _ same, cached] at here
      cases here
    · exact cached

theorem resolve_caches (request : ImportRequest) :
    (cache.resolve view options request).value.2.get? request =
      some (cache.resolve view options request).value.1 := by
  cases here : cache.get? request with
  | some known =>
    rw [resolve_of_cached here]
    exact here
  | none =>
    rw [resolve_of_missing here, Table.get?_insert, if_pos rfl]

theorem Faithful.resolve (faithful : Faithful (tree.templated preprocess) options cache)
    (componentwise : tree.Componentwise) (request : ImportRequest) :
    Faithful (tree.templated preprocess) options
      (cache.resolve (tree.templated preprocess) options request).value.2 := by
  cases here : cache.get? request with
  | some known =>
    rw [resolve_of_cached here]
    exact faithful
  | none =>
    rw [resolve_of_missing here]
    intro q answer cached
    rw [Table.get?_insert] at cached
    split at cached
    · -- the request may have been read under another spelling of its importing file
      rename_i same
      obtain ⟨specifier, importer⟩ := rank_request_iff.mp same
      cases cached
      rw [← specifier]
      exact Import.search_alike componentwise options request.specifier importer
    · exact faithful q answer cached

theorem Faithful.purge (faithful : Faithful view options cache) (path : Path) :
    Faithful view options (cache.purge path) :=
  fun request answer cached => faithful request answer (Table.get?_of_filter cached)

/-! A batch -/

theorem answer_cons (specifier : String) (rest : List String) (importer : Path) :
    cache.answer view options kind (specifier :: rest) importer =
      let found := cache.resolve view options ⟨specifier, importer⟩
      let others := found.value.2.answer view options kind rest importer
      ⟨(found.value.1.map (Resolution.shown kind) :: others.value.1, others.value.2),
        found.notes ++ others.notes⟩ := by
  have silent (r : Resolution) : (r.handOut (fixedDialect kind) ()).notes = [] := by
    unfold Resolution.handOut
    split <;> rfl
  unfold answer
  simp only [resolveAll]
  generalize cache.resolve view options ⟨specifier, importer⟩ = found
  obtain ⟨⟨answer, cache⟩, notes⟩ := found
  apply congrArg₂ Noted.mk
  · cases answer <;> rfl
  · cases answer <;> simp [silent]

theorem answer_append (front back : List String) (importer : Path) :
    cache.answer view options kind (front ++ back) importer =
      let first := cache.answer view options kind front importer
      let second := first.value.2.answer view options kind back importer
      ⟨(first.value.1 ++ second.value.1, second.value.2), first.notes ++ second.notes⟩ := by
  induction front generalizing cache with
  | nil => rfl
  | cons specifier rest ih =>
    simp only [List.cons_append, answer_cons, ih, List.append_assoc]

theorem answer_of_cached {specifiers : List String} {importer : Path}
    (cached : ∀ specifier ∈ specifiers, (cache.get? ⟨specifier, importer⟩).isSome = true) :
    (cache.answer view options kind specifiers importer).notes = [] ∧
      (cache.answer view options kind specifiers importer).value.2 = cache := by
  induction specifiers with
  | nil => exact ⟨rfl, rfl⟩
  | cons specifier rest ih =>
    obtain ⟨known, here⟩ := Option.isSome_iff_exists.mp (cached specifier List.mem_cons_self)
    obtain ⟨silent, unchanged⟩ := ih fun later member => cached later (.tail _ member)
    rw [answer_cons, resolve_of_cached here]
    exact ⟨silent, unchanged⟩

theorem answer_kept {q : ImportRequest} {known : Option Resolution}
    (cached : cache.get? q = some known) (specifiers : List String) (importer : Path) :
    (cache.answer view options kind specifiers importer).value.2.get? q = some known := by
  induction specifiers generalizing cache with
  | nil => exact cached
  | cons specifier rest ih =>
    rw [answer_cons]
    exact ih (resolve_kept cached)

theorem answer_caches {specifiers : List String} {specifier : String}
    (asked : specifier ∈ specifiers) (importer : Path) :
    ((cache.answer view options kind specifiers importer).value.2.get?
      ⟨specifier, importer⟩).isSome = true := by
  induction specifiers generalizing cache with
  | nil => cases asked
  | cons first rest ih =>
    rw [answer_cons]
    rcases List.mem_cons.mp asked with rfl | later
    · exact Option.isSome_of_eq_some (answer_kept (resolve_caches _) rest importer)
    · exact ih later

/-- A batch of a faithful cache shows what searches come to, and leaves a faithful cache. -/
theorem Faithful.answer (faithful : Faithful (tree.templated preprocess) options cache)
    (componentwise : tree.Componentwise) (kind : Path → Dialect) (specifiers : List String)
    (importer : Path) :
    let view := tree.templated preprocess
    let answered := cache.answer view options kind specifiers importer
    Faithful view options answered.value.2 ∧ List.Forall₂
      (fun specifier entry => Option.Rel (Resolution.Shows kind)
        (Import.search view options specifier importer).value entry)
      specifiers answered.value.1 := by
  induction specifiers generalizing cache with
  | nil => exact ⟨faithful, .nil⟩
  | cons specifier rest ih =>
    intro view answered
    -- the head's answer is in the cache that it leaves, and that cache is faithful
    have kept := faithful.resolve componentwise ⟨specifier, importer⟩
    have own := kept _ _ (resolve_caches ⟨specifier, importer⟩)
    obtain ⟨still, others⟩ := ih kept
    simp only [answered, answer_cons]
    refine ⟨still, .cons ?_ others⟩
    generalize (cache.resolve (tree.templated preprocess) options ⟨specifier, importer⟩).value.1 =
      a?, (Import.search (tree.templated preprocess) options specifier importer).value = b? at own
    cases own with
    | none => exact .none
    | some alike => exact .some (Resolution.shows_shown alike)

theorem Reached.faithful (reached : Reached (tree.templated preprocess) options cache)
    (componentwise : tree.Componentwise) : Faithful (tree.templated preprocess) options cache := by
  induction reached with
  | empty =>
    intro request answer cached
    cases cached
  | answered earlier kind specifiers importer ih =>
    exact (ih.answer componentwise kind specifiers importer).1
  | purged earlier path ih => exact ih.purge path

theorem alike_of_shown (componentwise : tree.Componentwise) {importer spelling : Path}
    (same : importer.Same spelling) {specifiers : List String}
    {entries others : List (Option ResolvedModule)}
    (shown : List.Forall₂ (fun specifier entry => Option.Rel (Resolution.Shows kind)
      (Import.search (tree.templated preprocess) options specifier importer).value entry)
      specifiers entries)
    (also : List.Forall₂ (fun specifier entry => Option.Rel (Resolution.Shows kind)
      (Import.search (tree.templated preprocess) options specifier spelling).value entry)
      specifiers others) :
    List.Forall₂ (Option.Rel (ResolvedModule.Alike kind)) entries others := by
  induction shown generalizing others with
  | nil =>
    cases also
    exact .nil
  | @cons specifier entry _ _ one _ ih =>
    cases also with
    | cons other also =>
      refine .cons ?_ (ih also)
      exact rel_sides (fun _ _ _ _ alike one other => one.alike other alike)
        (Import.search_alike componentwise options specifier same) one other

/-- However a resolver over unchanged files came by its memory, it answers a batch as searches
without any memory do. So it answers alike after whatever else was asked or forgotten, in one batch
or in two, and what it remembers takes no look at the files. -/
theorem answers_as_searched (files : Table Path String) (preprocess : Preprocessor)
    (options : Options) (kind : Path → Dialect) {cache : ImportCache}
    (reached : Reached ((MemoryFiles.treeOf files).templated preprocess) options cache)
    (specifiers : List String) (importer : Path) :
    let view := (MemoryFiles.treeOf files).templated preprocess
    let answered := cache.answer view options kind specifiers importer
    List.Forall₂ (fun specifier entry => Option.Rel (Resolution.Shows kind)
      (Import.search view options specifier importer).value entry) specifiers answered.value.1 ∧
    (∀ other spelling, Reached view options other → importer.Same spelling →
      List.Forall₂ (Option.Rel (ResolvedModule.Alike kind)) answered.value.1
        (other.answer view options kind specifiers spelling).value.1) ∧
    (∀ front back, specifiers = front ++ back →
      let first := cache.answer view options kind front importer
      let second := first.value.2.answer view options kind back importer
      answered = ⟨(first.value.1 ++ second.value.1, second.value.2),
        first.notes ++ second.notes⟩) ∧
    ((∀ specifier ∈ specifiers, (cache.get? ⟨specifier, importer⟩).isSome = true) →
      answered.notes = [] ∧ answered.value.2 = cache) ∧
    ∀ specifier ∈ specifiers, ∀ spelling, importer.Same spelling →
      (answered.value.2.get? ⟨specifier, spelling⟩).isSome = true := by
  intro view answered
  have componentwise := MemoryFiles.componentwise files
  obtain ⟨-, shown⟩ :=
    (reached.faithful componentwise).answer componentwise kind specifiers importer
  refine ⟨shown, ?_, ?_, answer_of_cached, ?_⟩
  · intro other spelling elsewhere same
    obtain ⟨-, also⟩ :=
      (elsewhere.faithful componentwise).answer componentwise kind specifiers spelling
    exact alike_of_shown componentwise same shown also
  · rintro front back rfl
    exact answer_append front back importer
  · intro specifier asked spelling same
    have one : rank (ImportRequest.mk specifier importer) =
        rank (ImportRequest.mk specifier spelling) := rank_request_iff.mpr ⟨rfl, same⟩
    rw [← Table.get?_congr _ one]
    exact answer_caches asked importer

/-- A script is asked for again under another spelling of the importing file. -/
theorem answers_respelled :
    let preprocess : Preprocessor := fun _ source => ⟨source, .jsx, true⟩
    let view := (MemoryFiles.treeOf (.ofList [(.ofString "/p/util.ts", "")])).templated preprocess
    let cache := ((∅ : ImportCache).answer view ∅ (fun _ => .jsx) ["./util", "./none"]
      (.ofString "/p/main.ts")).value.2
    let again := cache.answer view ∅ (fun _ => .jsx) ["./none", "./util"] (.ofString "/p//main.ts")
    Reached view ∅ cache ∧ again.notes = [] ∧
      again.value.1 = [none, some ⟨.ofString "/p/util.ts", ".ts", false⟩] := by
  intro preprocess view cache again
  have reached : Reached view ∅ cache := .answered .empty _ _ _
  obtain ⟨-, -, -, remembered, -⟩ := answers_as_searched _ _ ∅ (fun _ => .jsx) reached
    ["./none", "./util"] (.ofString "/p//main.ts")
  exact ⟨reached, (remembered (by decide)).1, by decide⟩

end ImportCache
end ComponentProjects
