import ComponentProjects.Proofs.Session.Asking

/-! What deleting a document forgets: its snapshot, and the imports that are read in it or answered
with it. The files decide afresh what is asked of it next. But an answer that was remembered for a
spelling of its converted path that is not itself converted, as with a closing slash, is not taken
for one that is read in the document, and is given for the converted path from then on. -/
namespace ComponentProjects

namespace Import

variable {preprocess : Preprocessor}

theorem search_nothing (options : Options) (specifier : String) (importer : Path) :
    (search ((MemoryFiles.treeOf ∅).templated preprocess) options specifier importer).value =
      none := by
  refine Option.eq_none_iff_forall_ne_some.mpr fun r found => ?_
  have there : false = true := (found_of_search found).isFile
  cases there

/-- A tree of one file. Every directory is taken to be there. -/
def only (file : Path) : FileTree :=
  { MemoryFiles.treeOf (.ofList [(file, "")]) with isDirectory := fun _ => pure true }

theorem isFile_only (preprocess : Preprocessor) (p : Path) :
    (((only p.real).templated preprocess).isFile p).value = true := by
  have held : (Table.ofList [(p.real, "")]).get? p.real = some "" :=
    (Table.get?_insert ∅ p.real p.real "").trans (if_pos rfl)
  exact congrArg Option.isSome held

theorem asFileOrDirectory_isSome {view : FileTree} {base : Path}
    (there : (view.isFile (base.withEnding ".ts")).value = true) :
    (asFileOrDirectory view base).value.isSome = true := by
  have implied : base.withEnding ".ts" ∈ candidates base :=
    List.mem_append_right _ (List.mem_map.mpr ⟨".ts", by decide, rfl⟩)
  have file : (asFile view base).value.isSome = true := by
    rw [value_asFile, List.find?_isSome]
    exact ⟨_, implied, there⟩
  simp [value_asFileOrDirectory, file]

theorem exists_search (preprocess : Preprocessor) (options : Options) (specifier : String)
    (importer : Path) : ∃ tree : FileTree,
      (search (tree.templated preprocess) options specifier importer).value.isSome = true := by
  by_cases path : isRelative specifier ∨ (Path.ofString specifier).isAbsolute
  · let base := ((directoryOf importer).join (.ofString specifier)).normal
    have found := asFileOrDirectory_isSome (isFile_only preprocess (base.withEnding ".ts"))
    refine ⟨only (base.withEnding ".ts").real, ?_⟩
    rw [value_search, if_pos path, Option.isSome_map]
    exact found
  · let base := ((directoryOf importer).join packageDirectory).join (.ofString specifier)
    let tree := only (base.withEnding ".ts").real
    have installed := asFileOrDirectory_isSome (isFile_only preprocess (base.withEnding ".ts"))
    have packages : ((tree.templated preprocess).isDirectory
        ((directoryOf importer).join packageDirectory)).value = true := rfl
    have own : (inPackages (tree.templated preprocess) specifier
        (directoryOf importer)).value.isSome = true := by
      rw [value_inPackages, if_pos packages, Option.isSome_or, installed, Bool.true_or]
    have upward : ((directoryOf importer).ancestors.findSome? fun dir =>
        (inPackages (tree.templated preprocess) specifier dir).value).isSome = true :=
      List.findSome?_isSome_iff.mpr ⟨directoryOf importer, List.mem_cons_self, own⟩
    refine ⟨tree, ?_⟩
    rw [value_search, if_neg path, Option.isSome_or, Option.isSome_map, Option.isSome_map, upward,
      Bool.or_true]

end Import

namespace ImportCache

/-- An answer for a request that a purge keeps although the request's file is a converted path of
the one that is purged: it is remembered for a spelling of that file that is not converted. -/
def KeptAside (cache : ImportCache) (p : Path) (request : ImportRequest) : Prop :=
  ∃ k answer, (k, answer) ∈ cache.entries ∧ rank k = rank request ∧
    k.importer.isConverted = false ∧ ∀ r, answer = some r → ¬ r.path.real.Same p

variable {cache : ImportCache} {p : Path} {k request : ImportRequest} {answer : Option Resolution}
  (plain : ∀ q : Path, q.Same p → q.isConverted = false)

include plain

theorem mem_entries_purge : (k, answer) ∈ (cache.purge p).entries ↔
    (k, answer) ∈ cache.entries ∧ ¬ k.importer.Same p ∧ ¬ k.importer.real.Same p ∧
      ∀ r, answer = some r → ¬ r.path.real.Same p := by
  have own (q : Path) : q.Same p → q.real.Same p := fun same => by
    rwa [Path.real_eq_self (plain q same)]
  have answered : (∀ r, answer = some r → ¬ r.path.Same p ∧ ¬ r.path.real.Same p) ↔
      ∀ r, answer = some r → ¬ r.path.real.Same p :=
    forall₂_congr fun r _ => ⟨fun apart => apart.2, fun apart => ⟨apart ∘ own _, apart⟩⟩
  rw [← answered]
  cases answer <;> simp [purge, Table.filter, mentions, and_assoc]

theorem get?_purge_of_importer (same : request.importer.Same p) :
    (cache.purge p).get? request = none := by
  refine Option.eq_none_iff_forall_ne_some.mpr fun answer kept => ?_
  obtain ⟨k, member, alike⟩ := Table.get?_eq_some_iff.mp kept
  obtain ⟨-, apart, -⟩ := (mem_entries_purge plain).mp member
  exact apart ((rank_request_iff.mp alike).2.trans same)

theorem get?_purge_of_answer {r : Resolution} (cached : cache.get? request = some (some r))
    (same : r.path.real.Same p) : (cache.purge p).get? request = none := by
  refine Option.eq_none_iff_forall_ne_some.mpr fun answer kept => ?_
  have before := Table.get?_of_filter kept
  cases cached.symm.trans before
  obtain ⟨k, member, -⟩ := Table.get?_eq_some_iff.mp kept
  obtain ⟨-, -, -, apart⟩ := (mem_entries_purge plain).mp member
  exact apart r rfl same

theorem get?_purge_of_twin (converted : request.importer.isConverted = true)
    (same : request.importer.real.Same p) :
    ((cache.purge p).get? request).isSome = true ↔ cache.KeptAside p request := by
  rw [Option.isSome_iff_exists]
  constructor
  · rintro ⟨answer, kept⟩
    obtain ⟨k, member, alike⟩ := Table.get?_eq_some_iff.mp kept
    obtain ⟨before, -, apart, answered⟩ := (mem_entries_purge plain).mp member
    have importer := (rank_request_iff.mp alike).2
    refine ⟨k, answer, before, alike, Bool.eq_false_iff.mpr fun also => apart ?_, answered⟩
    exact (importer.real_of_isConverted also converted).trans same
  · rintro ⟨k, answer, member, alike, aside, answered⟩
    have importer := (rank_request_iff.mp alike).2
    have apart : ¬ k.importer.Same p := by
      intro own
      have unconverted := plain _ (importer.symm.trans own)
      rw [converted] at unconverted
      cases unconverted
    refine ⟨answer, Table.get?_eq_some_iff.mpr ⟨k, ?_, alike⟩⟩
    apply (mem_entries_purge plain).mpr
    refine ⟨member, apart, ?_, answered⟩
    rwa [Path.real_eq_self aside]

end ImportCache

theorem Host.contents_of_fromTree? {host : Host} {tree : FileTree} {q : Path} {u : Snapshot}
    (factory : host.newDocument = .plain) (plain : q.isConverted = false)
    (found : host.fromTree? tree q = some u) : ∃ content,
      (tree.contents? q).value = some content ∧
        u = (Snapshot.ofDocument host.preprocess ⟨q, 0, content⟩ .disk).value := by
  have own : (host.view tree).contents? q = tree.contents? q := by
    simp only [view, FileTree.templated, plain, Bool.false_eq_true, if_false]
  simp only [fromTree?, Snapshot.load?, Noted.value_bind, own, factory] at found
  split at found
  · cases found
  · rename_i content there
    exact ⟨content, there, (Option.some.inj found).symm⟩

namespace Moment

/-- A request is searched for in the files of a move, as it is spelled in some question of that
move. What is found is remembered, and the questions of the move about it are answered with it. -/
structure Renews (m : Moment) (move : Move) (request : ImportRequest)
    (found : Option Resolution) : Prop where
  searched : ∃ tree specifiers spelling answer, move.tree? = some tree ∧
    (.resolve specifiers spelling, answer) ∈ (m.next move).event.exchanged ∧
    request.specifier ∈ specifiers ∧ spelling.Same request.importer ∧
    found = (Import.search (m.session.host.view tree) m.session.host.configuration.options
      request.specifier spelling).value
  remembered : (m.next move).remembered? request = some found
  answered : ∀ specifiers importer answer,
    (.resolve specifiers importer, answer) ∈ (m.next move).event.exchanged →
    importer.Same request.importer → ∃ entries, answer = .modules entries ∧
      List.Forall₂ (fun specifier entry => specifier = request.specifier →
        entry.map (·.file) = found.map (·.path.real)) specifiers entries

def Leads (through : Event → Prop) : Moment → Moment → Prop :=
  Relation.ReflTransGen fun l n => (∃ move, n = l.next move) ∧ through n.event

/-- The next time that a request is asked, it is searched for in the files as they are then. -/
def SearchesNext (m : Moment) (request : ImportRequest) : Prop :=
  ∀ l, m.Leads (fun event => ¬ event.Asks request) l → ∀ move,
    (l.next move).event.Asks request → ∃ found, l.Renews move request found

variable {host : Host} {m l e : Moment} {before : List Moment} {move : Move}
  {request : ImportRequest} {through : Event → Prop} {p : Path} {u : Snapshot}

theorem renews_of_missing (missing : m.remembered? request = none)
    (asks : (m.next move).event.Asks request) : ∃ found, m.Renews move request found := by
  obtain ⟨tree, specifiers, spelling, answer, files, exchanged, inside, same, searched⟩ :=
    searched?_of_asks asks
  have remembered := (remembered?_next missing move).trans searched
  refine ⟨_, ⟨tree, specifiers, spelling, answer, files, exchanged, inside, same, rfl⟩, remembered,
    fun others importer answer also alike => ?_⟩
  obtain ⟨entries, answered, shown⟩ := shows_of_exchanged also
  refine ⟨entries, answered, shown.imp ?_⟩
  rintro _ entry ⟨found, cached, file⟩ rfl
  -- the cache does not tell the two spellings of the request apart
  have one : rank (ImportRequest.mk request.specifier importer) = rank request :=
    ImportCache.rank_request_iff.mpr ⟨rfl, alike⟩
  have known : (m.next move).remembered? request = some found :=
    (Table.get?_congr _ one).symm.trans cached
  rw [file, Option.some.inj (known.symm.trans remembered)]

theorem Leads.missing (missing : m.remembered? request = none)
    (leads : m.Leads (fun event => ¬ event.Asks request) l) : l.remembered? request = none := by
  induction leads with
  | refl => exact missing
  | tail _ step ih =>
    obtain ⟨⟨move, rfl⟩, unasked⟩ := step
    exact (remembered?_next ih move).trans (searched?_of_not_asks unasked)

/-- A request is searched for just when nothing is remembered for it: no answer that is kept fits
all files. -/
theorem searchesNext_iff : m.SearchesNext request ↔ m.remembered? request = none := by
  constructor
  · intro searches
    refine Option.eq_none_iff_forall_ne_some.mpr fun known kept => ?_
    have always : ∀ tree, known = (Import.search (m.session.host.view tree)
        m.session.host.configuration.options request.specifier request.importer).value := by
      intro tree
      let move : Move := .ask tree (.resolve [request.specifier] request.importer)
      have asks : (m.next move).event.Asks request :=
        ⟨_, List.mem_singleton_self _, List.mem_singleton_self _, .refl _⟩
      obtain ⟨found, renews⟩ := searches m .refl move asks
      obtain ⟨_, specifiers, spelling, answer, files, exchanged, -, -, searched⟩ := renews.searched
      cases files
      cases List.mem_singleton.mp exchanged
      have still : (m.next move).remembered? request = some known := by
        have after := m.session.host.get?_ask tree m.session.held
          (.resolve [request.specifier] request.importer) request
        rwa [show m.session.held.imports.get? request = some known from kept] at after
      rw [← searched]
      exact Option.some.inj (still.symm.trans renews.remembered)
    -- without any files nothing is found, and then again there may be a file
    have nothing : known = none := (always (MemoryFiles.treeOf ∅)).trans (Import.search_nothing ..)
    obtain ⟨tree, some⟩ := Import.exists_search m.session.host.preprocess
      m.session.host.configuration.options request.specifier request.importer
    have missed := congrArg Option.isSome ((always tree).symm.trans nothing)
    cases missed.symm.trans some
  · intro missing l leads move asks
    exact renews_of_missing (Leads.missing missing leads) asks

/-- A snapshot that was read of a file, in a move that met it while nothing was held for the path,
and that has been held since. -/
inductive ReadSince (m e : Moment) (p : Path) (u : Snapshot) : Prop where
  | read (f : Moment) (move : Move) (tree : FileTree) (q : Path) (content : String)
    (leads : m.Leads (Event.Spares p) f) (missing : f.held? p = none)
    (spares : (f.next move).event.Spares p) (files : move.tree? = some tree) (same : q.Same p)
    (there : (tree.contents? q).value = some content)
    (taken : u = (Snapshot.ofDocument m.session.host.preprocess ⟨q, 0, content⟩ .disk).value)
    (since : (f.next move).Leads (fun event => event.Spares p ∧ ¬ event.Deletes p) e)

theorem Leads.course (course : Course host (m :: before)) (leads : m.Leads through e) :
    ∃ rest, Course host (e :: rest) := by
  induction leads with
  | refl => exact ⟨before, course⟩
  | tail _ step ih =>
    obtain ⟨⟨move, rfl⟩, -⟩ := step
    obtain ⟨rest, course⟩ := ih
    exact ⟨_, course.moved move⟩

theorem held?_of_deletes (deletes : (m.next move).event.Deletes p) :
    (m.next move).held? p = none := by
  cases move with
  | delete path =>
    have same : rank path = rank p := Path.Same.rank_eq deletes
    exact (Table.get?_erase _ path p).trans (if_pos same)
  | update tree queries failure? d => cases deletes
  | ask tree query => cases deletes
  | elsewhere => cases deletes

theorem readSince_of_held (course : Course host (m :: before))
    (factory : host.newDocument = .plain) (plain : ∀ q : Path, q.Same p → q.isConverted = false)
    (gone : m.held? p = none) (leads : m.Leads (Event.Spares p) e) (held : e.held? p = some u) :
    m.ReadSince e p u := by
  have keeps : host.newDocument.KeepsPath := factory ▸ DocumentFactory.plain_keepsPath
  induction leads with
  | refl =>
    rw [gone] at held
    cases held
  | @tail l n leads step ih =>
    obtain ⟨⟨move, rfl⟩, spares⟩ := step
    obtain ⟨rest, later⟩ := Leads.course course leads
    rcases held?_next (later.filed keeps) spares held with
      still | ⟨missing, tree, q, files, same, found⟩
    · obtain ⟨f, earlier, tree, q, content, led, missing, spared, files, same, there, taken,
        since⟩ := ih still
      have kept : ¬ (l.next move).event.Deletes p := fun deletes => by
        rw [held?_of_deletes deletes] at held
        cases held
      exact .read f earlier tree q content led missing spared files same there taken
        (since.tail ⟨⟨move, rfl⟩, spares, kept⟩)
    · have alike : l.session.host = m.session.host :=
        (later.session_host keeps).trans (course.session_host keeps).symm
      have made : m.session.host.newDocument = .plain := course.session_host keeps ▸ factory
      rw [alike] at found
      obtain ⟨content, there, taken⟩ := Host.contents_of_fromTree? made (plain q same) found
      exact .read l move tree q content leads missing spares files same there taken .refl

end Moment

/-- A document that is deleted is not held any more, nor any import that is remembered for it or
answered with it; all else stays, the engine too. What was imported in it or answered with it is
searched for anew when it is asked next, and so is what was imported in its converted path, unless
that is kept aside. Until the editor gives the path again, whatever is held or answered for it was
read of a file since. -/
theorem Course.deletion_forgets {host : Host} {m : Moment} {before : List Moment}
    (course : Course host (m :: before)) (factory : host.newDocument = .plain) {p : Path}
    (plain : ∀ q : Path, q.Same p → q.isConverted = false) :
    let gone := m.next (.delete p)
    (∀ q, gone.held? q = if p.Same q then none else m.held? q) ∧
    (∀ k answer, (k, answer) ∈ gone.session.held.imports.entries ↔
      (k, answer) ∈ m.session.held.imports.entries ∧ ¬ k.importer.Same p ∧
        ¬ k.importer.real.Same p ∧ ∀ r, answer = some r → ¬ r.path.real.Same p) ∧
    gone.session.handle = m.session.handle ∧
    (∀ request, (request.importer.Same p ∨ ∃ r, m.remembered? request = some (some r) ∧
      r.path.real.Same p) → gone.SearchesNext request) ∧
    (∀ request, request.importer.isConverted = true → request.importer.real.Same p →
      (gone.SearchesNext request ↔ ¬ m.session.held.imports.KeptAside p request)) ∧
    ∀ e, gone.Leads (Event.Spares p) e →
      (∀ u, e.held? p = some u → gone.ReadSince e p u) ∧
      ∀ q answer, q.real.Same p → (.snapshot q, answer) ∈ e.event.exchanged →
        answer = .snapshot none ∨ ∃ u, answer = .snapshot (some u) ∧ gone.ReadSince e p u := by
  intro gone
  have held : ∀ q, gone.held? q = if p.Same q then none else m.held? q := by
    intro q
    simp only [gone, Moment.held?, Moment.next, Session.delete, Table.get?_erase,
      Path.rank_eq_iff_same]
  refine ⟨held, fun k answer => ImportCache.mem_entries_purge plain, rfl, ?_, ?_, ?_⟩
  · rintro request (same | ⟨r, cached, same⟩)
    · exact Moment.searchesNext_iff.mpr (ImportCache.get?_purge_of_importer plain same)
    · exact Moment.searchesNext_iff.mpr (ImportCache.get?_purge_of_answer plain cached same)
  · intro request converted same
    rw [Moment.searchesNext_iff, ← ImportCache.get?_purge_of_twin plain converted same,
      Option.not_isSome_iff_eq_none]
    rfl
  · have forgotten : gone.held? p = none := (held p).trans (if_pos (.refl p))
    have after : Course host (gone :: m :: before) := course.moved (.delete p)
    intro e leads
    have read : ∀ u, e.held? p = some u → gone.ReadSince e p u := fun u =>
      Moment.readSince_of_held after factory plain forgotten leads
    refine ⟨read, fun q answer same exchanged => ?_⟩
    rcases leads.cases_tail with rfl | ⟨l, earlier, ⟨move, rfl⟩, spares⟩
    · cases exchanged
    · obtain ⟨rest, course⟩ := Moment.Leads.course after earlier
      have keeps : host.newDocument.KeepsPath := factory ▸ DocumentFactory.plain_keepsPath
      rcases Moment.answer_of_exchanged (course.filed keeps) spares same exchanged with
        none | ⟨u, some, kept⟩
      · exact .inl none
      · exact .inr ⟨u, some, read u kept⟩

namespace Sample

/-- The menu is imported in the converted path of the other component, with a slash behind it. -/
def visited : Moment :=
  opened.next (.ask (disk "js") (.resolve ["./Menu.widget"] (.ofString "/p/App.widget.ts/")))

end Sample

/-- What is remembered for the spelling with a slash is still answered once the component is
deleted. -/
theorem Course.deletion_keeps_aside :
    let twin : ImportRequest := ⟨"./Menu.widget", .ofString "/p/App.widget.ts"⟩
    Course Sample.host [Sample.visited, Sample.opened] ∧ Sample.host.newDocument = .plain ∧
    (∀ q : Path, q.Same Sample.app → q.isConverted = false) ∧
    Sample.visited.session.held.imports.KeptAside Sample.app twin ∧
    ¬ (Sample.visited.next (.delete Sample.app)).SearchesNext twin := by
  intro twin
  have course : Course Sample.host [Sample.visited, Sample.opened] :=
    .moved (.opened .global ⟨[], none, 0⟩ (Sample.disk "js") _ _ rfl) _
  have plain : ∀ q : Path, q.Same Sample.app → q.isConverted = false :=
    fun q same => same.isConverted_of_isTemplated (by decide)
  have aside : Sample.visited.session.held.imports.KeptAside Sample.app twin := by
    refine ⟨⟨"./Menu.widget", .ofString "/p/App.widget.ts/"⟩,
      some ⟨.ofString "/p/Menu.widget.ts", false⟩, by decide, by decide, by decide, ?_⟩
    intro r answered
    cases answered
    decide
  obtain ⟨-, -, -, -, searches_iff, -⟩ := deletion_forgets course rfl plain
  refine ⟨course, rfl, plain, aside, ?_⟩
  rw [searches_iff twin (by decide) (by decide), not_not]
  exact aside

end ComponentProjects
