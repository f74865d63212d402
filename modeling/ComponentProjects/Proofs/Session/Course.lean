import ComponentProjects.Proofs.Session.Step

/-! The course of a session: whatever an editor, an engine and the files do, in any order. A
course lists the moments between operations, the latest first, each with what led to it. Every
operation meets a tree of its own, so files may change in between. -/
namespace ComponentProjects

/-- What may be done next. An update says how an engine start would go. -/
inductive Move where
  | update (tree : FileTree) (queries : List Query) (failure? : Option String) (d : Document)
  | delete (path : Path)
  | ask (tree : FileTree) (query : Query)
  /-- An engine comes up for another session. -/
  | elsewhere

inductive Event where
  | opened (queries : List Query) (start : EngineStart)
  | updated (d : Document) (queries : List Query) (update : Update)
  | deleted (path : Path)
  | asked (query : Query) (answer : Answer)
  | elsewhere

namespace Event

/-- What the live engine has just asked, with the answers. An engine that did not come up is not
the live one. -/
def heard : Event → List (Query × Answer)
  | .opened queries start => queries.zip start.answers
  | .updated _ queries ⟨.ok _, some start⟩ => queries.zip start.answers
  | .asked query answer => [(query, answer)]
  | _ => []

def document? : Event → Option Document
  | .updated d _ _ => some d
  | _ => none

end Event

structure Moment where
  session : Session
  /-- How many engines came up so far, for this session or another one. -/
  built : Nat
  event : Event

namespace Moment

def held? (m : Moment) (path : Path) : Option Snapshot := m.session.held.tracked.get? path

def next (m : Moment) : Move → Moment
  | .update tree queries failure? d =>
    let factory : EngineFactory := ⟨queries, failure?, m.built⟩
    let updated := (m.session.update factory tree d).value
    let factory := if updated.1.start?.isSome then factory.afterStart else factory
    ⟨updated.2, factory.built, .updated d queries updated.1⟩
  | .delete path => ⟨m.session.delete path, m.built, .deleted path⟩
  | .ask tree query =>
    let asked := (m.session.ask tree query).value
    ⟨asked.2, m.built, .asked query asked.1⟩
  | .elsewhere => ⟨m.session, m.built + 1, .elsewhere⟩

end Moment

inductive Course (host : Host) : List Moment → Prop where
  | opened (key : ProjectKey) (factory : EngineFactory) (tree : FileTree) (session : Session)
      (start : EngineStart)
      (up : (Session.new key host factory tree).value = (.ok session, start)) :
    Course host [⟨session, factory.afterStart.built, .opened factory.queries start⟩]
  | moved {m : Moment} {before : List Moment} (course : Course host (m :: before)) (move : Move) :
    Course host (m.next move :: m :: before)

def documents (course : List Moment) : List Document := course.filterMap (·.event.document?)

/-- A document factory that makes a path's document under that path. -/
def DocumentFactory.KeepsPath (newDocument : DocumentFactory) : Prop :=
  ∀ path content, (newDocument path content).path.Same path

theorem DocumentFactory.plain_keepsPath : plain.KeepsPath := fun path _ => Path.Same.refl path

/-- Where a snapshot under a path was made: of a document that the editor sent in the course, or
of a file. -/
inductive Provenance (host : Host) (course : List Moment) (path : Path) (u : Snapshot) :
    Prop where
  | edited (d : Document) (sent : d ∈ documents course)
      (same : d.path.Same path)
      (new : u = (Snapshot.ofDocument host.preprocess d .editor).value)
  | loaded (tree : FileTree) (q : Path) (same : q.Same path)
      (found : host.fromTree? tree q = some u)

variable {host : Host} {m : Moment} {before course all : List Moment}

theorem Session.opened_eq {key : ProjectKey} {factory : EngineFactory} {tree : FileTree}
    {session : Session} {start : EngineStart}
    (up : (Session.new key host factory tree).value = (.ok session, start)) :
    let asked := (host.askAll tree .nothing factory.queries).value
    factory.failure? = none ∧ start.answers = asked.1 ∧
      session = ⟨key, host, asked.2, ⟨factory.built, 0⟩, ∅⟩ := by
  simp only [Session.new, EngineFactory.start, Noted.value_bind, Noted.value_pure] at up
  split at up
  · cases up
  · rename_i none
    cases up
    exact ⟨none, rfl, rfl⟩

namespace Moment

theorem handle_next (m : Moment) (move : Move) :
    ((m.next move).session.handle = m.session.handle ∧ m.built ≤ (m.next move).built) ∨
      ((m.next move).session.handle = ⟨m.built, m.session.handle.generation + 1⟩ ∧
        (m.next move).built = m.built + 1) := by
  cases move with
  | update tree queries failure? d =>
    have case := Session.update_updates m.session ⟨queries, failure?, m.built⟩ tree d
    simp only [next]
    generalize (m.session.update ⟨queries, failure?, m.built⟩ tree d).value = result at case ⊢
    cases case with
    | passedOver again => exact .inl ⟨rfl, Nat.le_refl _⟩
    | accepted fresh fits => exact .inl ⟨rfl, Nat.le_refl _⟩
    | restarted fresh clash up =>
      cases up
      exact .inr ⟨rfl, rfl⟩
    | takenBack fresh clash cause down =>
      cases down
      exact .inl ⟨rfl, Nat.le_refl _⟩
  | delete path => exact .inl ⟨rfl, Nat.le_refl _⟩
  | ask tree query => exact .inl ⟨rfl, Nat.le_refl _⟩
  | elsewhere => exact .inl ⟨rfl, Nat.le_succ _⟩

theorem next_follows (filed : m.session.Filed) (move : Move) :
    m.session.Follows (m.next move).event.document? (m.next move).session := by
  cases move with
  | update tree queries failure? d => exact Session.follows_update filed _ tree d
  | delete path => exact Session.follows_delete filed path
  | ask tree query => exact Session.follows_ask m.session tree query
  | elsewhere => exact Session.follows_self m.session

end Moment

theorem Host.path_fromTree? (keeps : host.newDocument.KeepsPath) {tree : FileTree} {q : Path}
    {u : Snapshot} (found : host.fromTree? tree q = some u) : u.path.Same q := by
  obtain ⟨content, rfl⟩ := exists_of_fromTree? found
  rw [Snapshot.path_ofDocument]
  exact keeps q content

theorem documents_subset (part : course <:+ all) : documents course ⊆ documents all := by
  intro d sent
  obtain ⟨m, member, sent⟩ := List.mem_filterMap.mp sent
  exact List.mem_filterMap.mpr ⟨m, part.subset member, sent⟩

namespace Provenance

variable {p : Path} {u : Snapshot}

theorem mono (part : course <:+ all) (made : Provenance host course p u) :
    Provenance host all p u := by
  cases made with
  | edited d sent same new => exact .edited d (documents_subset part sent) same new
  | loaded tree q same found => exact .loaded tree q same found

theorem path_same (made : Provenance host course p u) (keeps : host.newDocument.KeepsPath) :
    u.path.Same p := by
  cases made with
  | edited d sent same new =>
    rw [new, Snapshot.path_ofDocument]
    exact same
  | loaded tree q same found => exact (Host.path_fromTree? keeps found).trans same

end Provenance

namespace Course

/-- What holds of the first moment and passes from each moment to the next holds of all. -/
@[elab_as_elim]
theorem induct {motive : Moment → List Moment → Prop}
    (opened : ∀ key factory tree session start,
      (Session.new key host factory tree).value = (.ok session, start) →
      motive ⟨session, factory.afterStart.built, .opened factory.queries start⟩ [])
    (moved : ∀ m before move, Course host (m :: before) → motive m before →
      motive (m.next move) (m :: before))
    (course : Course host (m :: before)) : motive m before := by
  generalize whole : m :: before = all at course
  induction course generalizing m before with
  | opened key factory tree session start up =>
    cases whole
    exact opened key factory tree session start up
  | moved course move ih =>
    cases whole
    exact moved _ _ move course (ih rfl)

theorem suffix {m : Moment} {before : List Moment} (course : Course host all)
    (part : m :: before <:+ all) : Course host (m :: before) := by
  induction course with
  | opened key factory tree session start up =>
    rcases List.suffix_cons_iff.mp part with whole | part
    · rw [whole]
      exact .opened key factory tree session start up
    · cases List.suffix_nil.mp part
  | moved course move ih =>
    rcases List.suffix_cons_iff.mp part with whole | part
    · rw [whole]
      exact .moved course move
    · exact ih part

theorem moved_inv {l : Moment} (course : Course host (m :: l :: before)) :
    Course host (l :: before) ∧ ∃ move, m = l.next move := by
  cases course with
  | moved course move => exact ⟨course, move, rfl⟩

/-- What is known at the latest moment: its host is the course's, and every snapshot has a
provenance. -/
structure Settled (host : Host) (m : Moment) (before : List Moment) : Prop where
  host_eq : m.session.host = host
  provenance : ∀ p u, m.held? p = some u → Provenance host (m :: before) p u

theorem Settled.filed (settled : Settled host m before) (keeps : host.newDocument.KeepsPath) :
    m.session.Filed := fun p u held => (settled.provenance p u held).path_same keeps

theorem settled (course : Course host (m :: before)) (keeps : host.newDocument.KeepsPath) :
    Settled host m before := by
  refine course.induct ?_ ?_
  · intro key factory tree session start up
    obtain ⟨-, -, rfl⟩ := Session.opened_eq up
    refine ⟨rfl, fun p u held => ?_⟩
    obtain ⟨q, -, same, found⟩ := (Host.askAll_loads _ _).read p u rfl held
    exact .loaded tree q same found
  · intro m before move course settled
    -- a step is known only of sessions that are filed, and the provenance so far says that this is
    have follows := m.next_follows (settled.filed keeps) move
    refine ⟨follows.host.trans settled.host_eq, fun p u held => ?_⟩
    cases follows.came p u held with
    | stayed held => exact (settled.provenance p u held).mono (List.suffix_cons _ _)
    | read tree q missing same found => exact .loaded tree q same (settled.host_eq ▸ found)
    | given d edited same new fits =>
      rw [Session.incoming, settled.host_eq] at new
      exact .edited d (List.mem_filterMap.mpr ⟨_, List.mem_cons_self, edited⟩) same new

theorem session_host (course : Course host (m :: before)) (keeps : host.newDocument.KeepsPath) :
    m.session.host = host := (course.settled keeps).host_eq

theorem filed (course : Course host (m :: before)) (keeps : host.newDocument.KeepsPath) :
    m.session.Filed := (course.settled keeps).filed keeps

theorem provenance (course : Course host all) (keeps : host.newDocument.KeepsPath)
    (member : m ∈ all) {p : Path} {u : Snapshot} (held : m.held? p = some u) : Provenance host all p u := by
  obtain ⟨later, before, rfl⟩ := List.append_of_mem member
  have part := List.suffix_append later (m :: before)
  exact (((course.suffix part).settled keeps).provenance p u held).mono part

def Replaces (later earlier : Moment) : Prop :=
  later.session.handle = earlier.session.handle ∨
    (earlier.session.handle.engine < later.session.handle.engine ∧
      earlier.session.handle.generation < later.session.handle.generation)

theorem engine_lt_built (course : Course host (m :: before)) :
    ∀ e ∈ m :: before, e.session.handle.engine < m.built := by
  refine course.induct ?_ ?_
  · intro key factory tree session start up e member
    obtain ⟨down, -, rfl⟩ := Session.opened_eq up
    cases List.mem_singleton.mp member
    simp [EngineFactory.afterStart, down]
  · intro m before move course bounded e member
    rcases List.mem_cons.mp member with rfl | earlier
    · rcases m.handle_next move with ⟨same, more⟩ | ⟨renewed, more⟩
      · rw [same]
        exact Nat.lt_of_lt_of_le (bounded m List.mem_cons_self) more
      · rw [renewed, more]
        exact Nat.lt_succ_self _
    · have older := bounded e earlier
      rcases m.handle_next move with ⟨-, more⟩ | ⟨-, more⟩ <;> omega

theorem replaces (course : Course host (m :: before)) : (m :: before).Pairwise Replaces := by
  refine course.induct ?_ ?_
  · intro key factory tree session start up
    exact List.pairwise_singleton _ _
  · intro m before move course ordered
    refine List.pairwise_cons.mpr ⟨fun e earlier => ?_, ordered⟩
    have bounded := course.engine_lt_built e earlier
    have older : Replaces m e := by
      rcases List.mem_cons.mp earlier with rfl | earlier
      · exact .inl rfl
      · exact List.rel_of_pairwise_cons ordered earlier
    rcases m.handle_next move with ⟨same, -⟩ | ⟨renewed, -⟩
    · unfold Replaces
      rw [same]
      exact older
    · refine .inr ?_
      rw [renewed]
      refine ⟨bounded, ?_⟩
      rcases older with same | ⟨-, fewer⟩
      · rw [same]
        exact Nat.lt_succ_self _
      · exact Nat.lt_succ_of_lt fewer

end Course

/-! A course for the closed cases: a component is edited and closed again. -/
namespace Sample

def opened : Moment := ⟨⟨.global, Sample.host, .nothing, ⟨0, 0⟩, ∅⟩, 1, .opened [] ⟨[], some 0⟩⟩
def edited : Moment := opened.next (.update (disk "js") [] none ⟨app, 1, "js"⟩)
def closed : Moment := edited.next (.delete app)

theorem course_closed : Course Sample.host [closed, edited, opened] :=
  .moved (.moved (.opened .global ⟨[], none, 0⟩ (disk "js") _ _ rfl) _) _

end Sample

end ComponentProjects
