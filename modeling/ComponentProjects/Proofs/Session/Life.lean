import ComponentProjects.Proofs.Session.Course

/-! The life of an engine: the moments at which a session has it as its live one. An engine that
came up was never live before, so nothing that was seen earlier counts for it. Two moments of one
life are compared by way of the last one that saw anything. -/
namespace ComponentProjects

/-- The moments of an engine's life, the latest first. -/
def lifeOf (engine : EngineHandle) (course : List Moment) : List Moment :=
  course.filter fun m => m.session.handle = engine

def lastSeen? (seen : Moment → Option α) (engine : EngineHandle) (course : List Moment) :
    Option α :=
  (lifeOf engine course).findSome? seen

/-- Whatever is seen at two moments of an engine's life is the same. -/
def Agree (seen : Moment → Option α) (course : List Moment) : Prop :=
  ∀ m ∈ course, ∀ e ∈ course, m.session.handle = e.session.handle →
    ∀ a b, seen m = some a → seen e = some b → a = b

/-- A file that was not tracked was read from the tree between two moments. -/
structure JustRead (l m : Moment) (path : Path) (u : Snapshot) : Prop where
  missing : l.held? path = none
  held : m.held? path = some u
  disk : u.origin = .disk

variable {host : Host} {l m e : Moment} {before course : List Moment} {engine : EngineHandle}
  {seen : Moment → Option α} {p : Path} {u : Snapshot}

theorem lastSeen?_of_live (seen : Moment → Option α) (live : m.session.handle = engine) :
    lastSeen? seen engine (m :: before) = (seen m).or (lastSeen? seen engine before) := by
  simp only [lastSeen?, lifeOf, List.filter_cons, live, decide_true, if_true, List.findSome?_cons]
  cases seen m <;> rfl

theorem lastSeen?_of_new (seen : Moment → Option α)
    (new : ∀ e ∈ before, e.session.handle ≠ engine) : lastSeen? seen engine before = none := by
  have none : lifeOf engine before = [] := List.filter_eq_nil_iff.mpr (by simpa using new)
  simp only [lastSeen?, none, List.findSome?_nil]

theorem exists_of_lastSeen? {a : α} (last : lastSeen? seen engine course = some a) :
    ∃ m ∈ course, m.session.handle = engine ∧ seen m = some a := by
  obtain ⟨m, member, sees⟩ := List.exists_of_findSome?_eq_some last
  obtain ⟨member, live⟩ := List.mem_filter.mp member
  exact ⟨m, member, of_decide_eq_true live, sees⟩

theorem lastSeen?_isSome (member : m ∈ course) (sees : (seen m).isSome = true) :
    (lastSeen? seen m.session.handle course).isSome = true :=
  List.findSome?_isSome_iff.mpr ⟨m, List.mem_filter.mpr ⟨member, by simp⟩, sees⟩

theorem agree_cons : Agree seen (m :: before) ↔ Agree seen before ∧
    ∀ a b, seen m = some a → lastSeen? seen m.session.handle before = some b → a = b := by
  constructor
  · intro agree
    refine ⟨fun m hm e he => agree m (.tail _ hm) e (.tail _ he), fun a b sees last => ?_⟩
    obtain ⟨e, member, live, saw⟩ := exists_of_lastSeen? last
    exact agree m (.head _) e (.tail _ member) live.symm a b sees saw
  · rintro ⟨agree, latest⟩
    -- the latest moment and an earlier one meet at the last one that saw anything
    have meet : ∀ e ∈ before, m.session.handle = e.session.handle →
        ∀ a b, seen m = some a → seen e = some b → a = b := by
      intro e member live a b sees saw
      have some := lastSeen?_isSome member (Option.isSome_of_eq_some saw)
      obtain ⟨c, last⟩ := Option.isSome_iff_exists.mp some
      obtain ⟨f, earlier, alike, seen⟩ := exists_of_lastSeen? last
      have between : b = c := agree e member f earlier alike.symm b c saw seen
      exact (latest a c sees (live ▸ last)).trans between.symm
    intro f hf e he live a b
    rcases List.mem_cons.mp hf with rfl | f_earlier <;>
      rcases List.mem_cons.mp he with rfl | e_earlier
    · exact fun sees saw => Option.some.inj (sees.symm.trans saw)
    · exact meet e e_earlier live a b
    · exact fun sees saw => (meet f f_earlier live.symm b a saw sees).symm
    · exact agree f f_earlier e e_earlier live a b

theorem agree_iff : Agree seen course ↔ ∀ m before, m :: before <:+ course →
    ∀ a b, seen m = some a → lastSeen? seen m.session.handle before = some b → a = b := by
  induction course with
  | nil =>
    refine ⟨fun _ m before part => ?_, fun _ m member => ?_⟩
    · cases List.suffix_nil.mp part
    · cases member
  | cons m rest ih =>
    rw [agree_cons, ih]
    constructor
    · rintro ⟨earlier, latest⟩ f before part
      rcases List.suffix_cons_iff.mp part with whole | part
      · cases whole
        exact latest
      · exact earlier f before part
    · intro all
      exact ⟨fun f before part => all f before (part.trans (List.suffix_cons m rest)),
        all m rest (List.suffix_refl _)⟩

namespace Course

/-- An engine that has just come up was never live before. -/
theorem new_of_renewed (course : Course host (m :: before)) {move : Move}
    (renewed : (m.next move).session.handle ≠ m.session.handle) :
    ∀ e ∈ m :: before, e.session.handle.engine ≠ (m.next move).session.handle.engine := by
  intro e earlier
  have bounded := course.engine_lt_built e earlier
  rcases m.handle_next move with ⟨same, -⟩ | ⟨new, -⟩
  · exact absurd same renewed
  · rw [new]
    exact Nat.ne_of_lt bounded

theorem lastSeen?_of_renewed (course : Course host (m :: before)) {move : Move}
    (renewed : (m.next move).session.handle ≠ m.session.handle) :
    lastSeen? seen (m.next move).session.handle (m :: before) = none :=
  lastSeen?_of_new seen fun e earlier same =>
    course.new_of_renewed renewed e earlier (congrArg EngineHandle.engine same)

/-- What is seen agrees over a whole course when it does from each moment to the next, as long as
the engine stays. -/
theorem agree_iff_steps (course : Course host all) : Agree seen all ↔
    ∀ m l before, m :: l :: before <:+ all → m.session.handle = l.session.handle →
      ∀ a b, seen m = some a → lastSeen? seen l.session.handle (l :: before) = some b → a = b := by
  rw [agree_iff]
  constructor
  · intro latest m l before part live a b sees last
    exact latest m (l :: before) part a b sees (live ▸ last)
  · intro steps m before part a b sees last
    cases before with
    | nil => cases last
    | cons l before =>
      obtain ⟨earlier, move, rfl⟩ := (course.suffix part).moved_inv
      by_cases live : (l.next move).session.handle = l.session.handle
      · exact steps _ l before part live a b sees (live ▸ last)
      · rw [earlier.lastSeen?_of_renewed live] at last
        cases last

theorem came (course : Course host (m :: l :: before)) (keeps : host.newDocument.KeepsPath)
    (held : m.held? p = some u) : l.session.Came m.session m.event.document? p u := by
  obtain ⟨earlier, move, rfl⟩ := course.moved_inv
  exact (l.next_follows (earlier.filed keeps) move).came p u held

end Course

end ComponentProjects
