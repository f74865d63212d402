import ComponentProjects.Proofs.Registry.Opening

/-! The course of a registry: whatever is asked of it and of its sessions, in any order. A course
lists the moments between operations, the latest first, each with what was answered and announced.
A move can bring one session up, drop one, or leave the live sessions as they are. -/
namespace ComponentProjects.Registry

/-- What may be done next. Files may change in between; a start of an engine goes as the move
says. -/
inductive Move where
  | resolve (tree : FileTree) (path root : Path)
  | openKey (tree : FileTree) (queries : List Query) (failure? : Option String) (key : ProjectKey)
      (newDocument : DocumentFactory)
  | openPath (tree : FileTree) (queries : List Query) (failure? : Option String) (path : Path)
      (newDocument : DocumentFactory)
  | lookup (key : ProjectKey)
  | close (key : ProjectKey)
  | update (tree : FileTree) (queries : List Query) (failure? : Option String) (number : Nat)
      (d : Document)
  | delete (number : Nat) (path : Path)
  | ask (tree : FileTree) (number : Nat) (query : Query)

inductive Reply where
  | done
  | key (key : ProjectKey)
  | opened (outcome : Except StartFailure Nat)
  | found (number? : Option Nat)
  | closed (dropped : Bool)

/-- The session that a reply hands out. -/
def Reply.number? : Reply → Option Nat
  | .opened (.ok number) => some number
  | .found number? => number?
  | _ => none

structure Moment where
  registry : Registry
  reply : Reply
  events : List RegistryEvent

/-- The key for whose session a move asks, and how an engine start would go. -/
def Move.opens? (r : Registry) : Move → Option (ProjectKey × Option String)
  | .openKey _ _ failure? key _ => some (key, failure?)
  | .openPath tree _ failure? path _ => some ((r.keyOf tree path r.root).value, failure?)
  | _ => none

/-- Work with a session that was brought up. -/
def within (r : Registry) (number : Nat) (work : Session → Registry) : Registry :=
  (r.session? number).elim r work

namespace Moment

def ofOpening (opened : Opening × Registry) : Moment :=
  ⟨opened.2, .opened opened.1.outcome, opened.1.events⟩

def next (m : Moment) : Move → Moment
  | .resolve tree path root => ⟨m.registry, .key (m.registry.keyOf tree path root).value, []⟩
  | .openKey tree queries failure? key newDocument =>
    .ofOpening ((m.registry.expecting queries failure?).openKey tree key newDocument).value
  | .openPath tree queries failure? path newDocument =>
    .ofOpening ((m.registry.expecting queries failure?).openPath tree path newDocument).value
  | .lookup key => ⟨m.registry, .found (m.registry.lookup key), []⟩
  | .close key =>
    let closed := m.registry.close key
    ⟨closed.2, .closed !closed.1.isEmpty, closed.1⟩
  | .update tree queries failure? number d =>
    ⟨m.registry.within number fun s =>
      ((m.registry.expecting queries failure?).update tree number s d).value.2, .done, []⟩
  | .delete number path =>
    ⟨m.registry.within number fun s => m.registry.delete number s path, .done, []⟩
  | .ask tree number query =>
    ⟨m.registry.within number fun s => (m.registry.ask tree number s query).value.2, .done, []⟩

end Moment

/-- The courses of a registry for one workspace. -/
inductive Course (root : Path) (loader : Loader) (preprocess : Preprocessor) :
    List Moment → Prop where
  | opened (factory : EngineFactory) :
    Course root loader preprocess [⟨.new root loader preprocess factory, .done, []⟩]
  | moved {m : Moment} {before : List Moment} (course : Course root loader preprocess (m :: before))
      (move : Move) : Course root loader preprocess (m.next move :: m :: before)

variable {r : Registry} {m : Moment} {before all : List Moment} {root : Path} {loader : Loader}
  {preprocess : Preprocessor} {key : ProjectKey} {number : Nat}

/-- What one move can do to the live sessions. -/
inductive Happens (r : Registry) : Moment → Prop where
  | quiet (m : Moment) (live : m.registry.live = r.live)
      (size : m.registry.sessions.length = r.sessions.length) (silent : m.events = [])
      (known : ∀ number, m.reply.number? = some number →
        ∃ key, r.live.get? key = some number) : Happens r m
  | created (m : Moment) (key : ProjectKey) (rootFiles : Nat) (new : r.live.get? key = none)
      (live : m.registry.live = r.live.insert key r.sessions.length)
      (size : m.registry.sessions.length = r.sessions.length + 1)
      (announced : m.events = [.created key rootFiles])
      (reply : m.reply = .opened (.ok r.sessions.length)) : Happens r m
  | closed (m : Moment) (key : ProjectKey) (number : Nat) (held : r.live.get? key = some number)
      (live : m.registry.live = r.live.erase key)
      (size : m.registry.sessions.length = r.sessions.length) (announced : m.events = [.closed key])
      (silent : m.reply.number? = none) : Happens r m

theorem happens_of_opens {queries : List Query} {failure? : Option String}
    {opened : Opening × Registry} (opens : (r.expecting queries failure?).Opens key opened) :
    Happens r (.ofOpening opened) := by
  cases opens with
  | again number live =>
    refine .quiet _ rfl rfl rfl fun other handed => ?_
    cases handed
    exact ⟨key, live⟩
  | created new up rootFiles start s fresh =>
    exact .created _ key rootFiles new rfl (List.length_append ..) rfl rfl
  | refused new cause down start => exact .quiet _ rfl rfl rfl fun _ handed => by cases handed

theorem quiet_within {work : Session → Registry}
    (keeps : ∀ s, (work s).live = r.live ∧ (work s).sessions.length = r.sessions.length) :
    Happens r ⟨r.within number work, .done, []⟩ := by
  have kept : (r.within number work).live = r.live ∧
      (r.within number work).sessions.length = r.sessions.length := by
    unfold within
    cases r.session? number with
    | none => exact ⟨rfl, rfl⟩
    | some s => exact keeps s
  exact .quiet _ kept.1 kept.2 rfl fun _ handed => by cases handed

theorem Moment.next_happens (m : Moment) (move : Move) : Happens m.registry (m.next move) := by
  cases move with
  | resolve tree path root => exact .quiet _ rfl rfl rfl fun _ handed => by cases handed
  | openKey tree queries failure? key newDocument => exact happens_of_opens (openKey_opens ..)
  | openPath tree queries failure? path newDocument => exact happens_of_opens (openKey_opens ..)
  | lookup key => exact .quiet _ rfl rfl rfl fun number found => ⟨key, found⟩
  | close key =>
    cases held : m.registry.live.get? key with
    | none =>
      have kept : m.registry.close key = ([], m.registry) := by simp [close, Table.contains, held]
      simp only [next, kept]
      exact .quiet _ rfl rfl rfl fun _ handed => by cases handed
    | some number =>
      have dropped : m.registry.close key =
          ([.closed key], { m.registry with live := m.registry.live.erase key }) := by
        simp [close, Table.contains, held]
      simp only [next, dropped]
      exact .closed _ key number held rfl rfl rfl rfl
  | update tree queries failure? number d =>
    exact quiet_within fun s => ⟨rfl, List.length_set⟩
  | delete number path => exact quiet_within fun s => ⟨rfl, List.length_set⟩
  | ask tree number query => exact quiet_within fun s => ⟨rfl, List.length_set⟩

theorem root_within {work : Session → Registry}
    (keeps : ∀ s, (work s).root = r.root ∧ (work s).loader = r.loader) :
    (r.within number work).root = r.root ∧ (r.within number work).loader = r.loader := by
  unfold within
  cases r.session? number with
  | none => exact ⟨rfl, rfl⟩
  | some s => exact keeps s

theorem root_of_opens {queries : List Query} {failure? : Option String}
    {opened : Opening × Registry} (opens : (r.expecting queries failure?).Opens key opened) :
    opened.2.root = r.root ∧ opened.2.loader = r.loader := by
  cases opens <;> exact ⟨rfl, rfl⟩

/-- A registry keeps its workspace and its way of finding projects. -/
theorem Moment.root_next (m : Moment) (move : Move) :
    (m.next move).registry.root = m.registry.root ∧
    (m.next move).registry.loader = m.registry.loader := by
  cases move with
  | openKey tree queries failure? key newDocument => exact root_of_opens (openKey_opens ..)
  | openPath tree queries failure? path newDocument => exact root_of_opens (openKey_opens ..)
  | close key =>
    simp only [next, close]
    split <;> exact ⟨rfl, rfl⟩
  | update tree queries failure? number d => exact root_within fun _ => ⟨rfl, rfl⟩
  | delete number path => exact root_within fun _ => ⟨rfl, rfl⟩
  | ask tree number query => exact root_within fun _ => ⟨rfl, rfl⟩
  | resolve tree path root => exact ⟨rfl, rfl⟩
  | lookup key => exact ⟨rfl, rfl⟩

namespace Course

/-- What holds of the first moment and passes on with whatever can happen holds of all. -/
@[elab_as_elim]
theorem induct {motive : Moment → List Moment → Prop}
    (opened : ∀ factory, motive ⟨.new root loader preprocess factory, .done, []⟩ [])
    (moved : ∀ l before m, motive l before → Happens l.registry m → motive m (l :: before))
    (course : Course root loader preprocess (m :: before)) : motive m before := by
  generalize whole : m :: before = all at course
  induction course generalizing m before with
  | opened factory =>
    cases whole
    exact opened factory
  | moved course move ih =>
    cases whole
    exact moved _ _ _ (ih rfl) (Moment.next_happens _ move)

theorem root_eq (course : Course root loader preprocess (m :: before)) :
    m.registry.root = root ∧ m.registry.loader = loader := by
  generalize whole : m :: before = all at course
  induction course generalizing m before with
  | opened factory =>
    cases whole
    exact ⟨rfl, rfl⟩
  | @moved l earlier course move ih =>
    cases whole
    have kept := l.root_next move
    have settled := ih rfl
    exact ⟨kept.1.trans settled.1, kept.2.trans settled.2⟩

end Course

end ComponentProjects.Registry
