import ComponentProjects.Proofs.Registry.Course

/-! What the events of a registry tell. Of one key they are creations and closings in turn, and the
key is live just when the last of them is a creation. A live key stands for the session that was
announced last for it, and no two keys share one. -/
namespace ComponentProjects

namespace RegistryEvent

variable {events : List RegistryEvent} {e : RegistryEvent}

def key : RegistryEvent → ProjectKey
  | .created key _ | .closed key => key

def isCreation : RegistryEvent → Bool
  | .created _ _ => true
  | .closed _ => false

def creations (events : List RegistryEvent) : Nat := events.countP isCreation

def closings (events : List RegistryEvent) : Nat := events.countP fun e => !e.isCreation

/-- Creations and closings by turns, a creation first. -/
def InTurn (events : List RegistryEvent) : Prop :=
  ∀ i e, events[i]? = some e → (e.isCreation = true ↔ i % 2 = 0)

theorem InTurn.concat (inTurn : InTurn events)
    (fits : e.isCreation = true ↔ events.length % 2 = 0) : InTurn (events ++ [e]) := by
  intro i f found
  rw [List.getElem?_append] at found
  split at found
  · exact inTurn i f found
  · rename_i beyond
    have last : i - events.length < [e].length := (List.getElem?_eq_some_iff.mp found).1
    have here : i = events.length := by
      rw [List.length_singleton] at last
      omega
    subst here
    rw [Nat.sub_self] at found
    cases found
    exact fits

theorem length_eq (events : List RegistryEvent) :
    events.length = creations events + closings events := by
  have parts := List.length_eq_countP_add_countP isCreation (l := events)
  simpa only [creations, closings, Bool.not_eq_true, Bool.decide_eq_false] using parts

end RegistryEvent

namespace Registry

open RegistryEvent (InTurn creations closings)

variable {r : Registry} {l m : Moment} {before : List Moment} {root : Path} {loader : Loader}
  {preprocess : Preprocessor} {key : ProjectKey} {number : Nat}

/-- The events of a course, the first one first. -/
def history (course : List Moment) : List RegistryEvent := course.reverse.flatMap (·.events)

def historyOf (key : ProjectKey) (course : List Moment) : List RegistryEvent :=
  (history course).filter fun e => decide (e.key.Same key)

/-- The session whose creation was announced for a key at a moment. -/
def Moment.creation? (m : Moment) (key : ProjectKey) : Option Nat :=
  if m.events.any fun e => e.isCreation && decide (e.key.Same key) then m.reply.number? else none

/-- The session whose creation was announced for a key last. -/
def lastCreated? (key : ProjectKey) (course : List Moment) : Option Nat :=
  course.findSome? (·.creation? key)

theorem history_cons (m : Moment) (before : List Moment) :
    history (m :: before) = history before ++ m.events := by
  simp [history]

theorem historyOf_cons (key : ProjectKey) (m : Moment) (before : List Moment) :
    historyOf key (m :: before) =
      historyOf key before ++ m.events.filter fun e => decide (e.key.Same key) := by
  rw [historyOf, history_cons, List.filter_append]
  rfl

theorem get?_live_insert {k l : ProjectKey} {number : Nat} (live : Table ProjectKey Nat) :
    (live.insert k number).get? l = if k.Same l then some number else live.get? l := by
  simp only [Table.get?_insert, ProjectKey.rank_eq_iff_same]

theorem get?_live_erase {k l : ProjectKey} (live : Table ProjectKey Nat) :
    (live.erase k).get? l = if k.Same l then none else live.get? l := by
  simp only [Table.get?_erase, ProjectKey.rank_eq_iff_same]

theorem get?_live_congr {k l : ProjectKey} (live : Table ProjectKey Nat) (same : k.Same l) :
    live.get? k = live.get? l := live.get?_congr (ProjectKey.rank_eq_iff_same.mpr same)

/-- The events of a course add up to the live sessions at its end. -/
structure Balanced (m : Moment) (before : List Moment) : Prop where
  inTurn : ∀ key, InTurn (historyOf key (m :: before))
  count : ∀ key, creations (historyOf key (m :: before)) =
    closings (historyOf key (m :: before)) + if (m.registry.live.get? key).isSome then 1 else 0
  total : m.registry.live.size + closings (history (m :: before)) =
    creations (history (m :: before))

theorem Balanced.length_mod_two (balanced : Balanced m before) (key : ProjectKey) :
    (historyOf key (m :: before)).length % 2 =
      if (m.registry.live.get? key).isSome then 1 else 0 := by
  have parts := RegistryEvent.length_eq (historyOf key (m :: before))
  have count := balanced.count key
  cases live : (m.registry.live.get? key).isSome with
  | true =>
    rw [live] at count
    simp only [if_true] at count ⊢
    omega
  | false =>
    rw [live] at count
    simp only [Bool.false_eq_true, if_false] at count ⊢
    omega

/-- An event turns its own key's liveness and leaves the other keys alone. -/
theorem Balanced.announced (balanced : Balanced l before) {e : RegistryEvent}
    (event : m.events = [e])
    (was : (l.registry.live.get? e.key).isSome = !e.isCreation)
    (live : ∀ key, (m.registry.live.get? key).isSome =
      if e.key.Same key then e.isCreation else (l.registry.live.get? key).isSome)
    (size : m.registry.live.size + closings [e] = l.registry.live.size + creations [e]) :
    Balanced m (l :: before) := by
  have each (key : ProjectKey) : historyOf key (m :: l :: before) =
      historyOf key (l :: before) ++ if e.key.Same key then [e] else [] := by
    rw [historyOf_cons, event]
    by_cases same : e.key.Same key <;> simp [same]
  refine ⟨fun key => ?_, fun key => ?_, ?_⟩
  · rw [each]
    split
    · rename_i same
      have parity := balanced.length_mod_two key
      rw [← get?_live_congr _ same, was] at parity
      exact (balanced.inTurn key).concat (by cases turn : e.isCreation <;> simp [turn, parity])
    · rw [List.append_nil]
      exact balanced.inTurn key
  · have count := balanced.count key
    rw [each, live]
    split
    · rename_i same
      rw [← get?_live_congr _ same, was] at count
      cases turn : e.isCreation <;> simp [creations, closings, turn] at count ⊢ <;> exact count
    · rw [List.append_nil]
      exact count
  · have total := balanced.total
    rw [history_cons, event]
    simp only [creations, closings, List.countP_append] at total size ⊢
    omega

theorem Balanced.next (balanced : Balanced l before) (happens : Happens l.registry m) :
    Balanced m (l :: before) := by
  cases happens with
  | quiet live size silent known =>
    have same : history (m :: l :: before) = history (l :: before) := by
      rw [history_cons, silent, List.append_nil]
    have each (key : ProjectKey) :
        historyOf key (m :: l :: before) = historyOf key (l :: before) := by
      rw [historyOf, same]
      rfl
    refine ⟨fun key => ?_, fun key => ?_, ?_⟩
    · rw [each]
      exact balanced.inTurn key
    · rw [each, live]
      exact balanced.count key
    · rw [same, live]
      exact balanced.total
  | created opened rootFiles new live size announced reply =>
    refine balanced.announced announced (congrArg Option.isSome new) (fun key => ?_) ?_
    · rw [live, get?_live_insert]
      exact apply_ite Option.isSome _ _ _
    · rw [live, Table.size_insert_of_missing new]
      rfl
  | closed dropped number held live size announced silent =>
    refine balanced.announced announced (congrArg Option.isSome held) (fun key => ?_) ?_
    · rw [live, get?_live_erase]
      exact apply_ite Option.isSome _ _ _
    · rw [live]
      exact Table.size_erase_of_held held

theorem Course.balanced (course : Course root loader preprocess (m :: before)) :
    Balanced m before := by
  refine course.induct (fun factory => ?_) fun l before m balanced happens => balanced.next happens
  refine ⟨fun key i e found => ?_, fun key => ?_, ?_⟩
  · simp [historyOf, history] at found
  · rfl
  · rfl

theorem lastCreated?_cons (key : ProjectKey) (m : Moment) (before : List Moment) :
    lastCreated? key (m :: before) = (m.creation? key).or (lastCreated? key before) := by
  rw [lastCreated?, List.findSome?_cons]
  cases m.creation? key <;> rfl

/-- Each live key stands for the session that was announced last for it, and for no other key's. -/
structure Numbered (m : Moment) (before : List Moment) : Prop where
  announced : ∀ key number, m.registry.live.get? key = some number →
    lastCreated? key (m :: before) = some number
  brought : ∀ key number, m.registry.live.get? key = some number →
    number < m.registry.sessions.length
  handed : ∀ earlier ∈ m :: before, ∀ number, earlier.reply.number? = some number →
    number < m.registry.sessions.length
  apart : ∀ k l number, m.registry.live.get? k = some number →
    m.registry.live.get? l = some number → k.Same l

/-- A move that announces no creation and hands out no new number. -/
theorem Numbered.stays (numbered : Numbered l before)
    (live : ∀ key number, m.registry.live.get? key = some number →
      l.registry.live.get? key = some number)
    (size : m.registry.sessions.length = l.registry.sessions.length)
    (silent : ∀ key, m.creation? key = none)
    (known : ∀ number, m.reply.number? = some number →
      ∃ key, l.registry.live.get? key = some number) : Numbered m (l :: before) := by
  refine ⟨fun key number held => ?_, fun key number held => ?_,
    fun earlier member number handed => ?_, fun k j number held kept => ?_⟩
  · rw [lastCreated?_cons, silent]
    exact numbered.announced key number (live key number held)
  · rw [size]
    exact numbered.brought key number (live key number held)
  · rw [size]
    rcases List.mem_cons.mp member with rfl | member
    · obtain ⟨key, held⟩ := known number handed
      exact numbered.brought key number held
    · exact numbered.handed earlier member number handed
  · exact numbered.apart k j number (live k number held) (live j number kept)

theorem Numbered.next (numbered : Numbered l before) (happens : Happens l.registry m) :
    Numbered m (l :: before) := by
  cases happens with
  | quiet live size silent known =>
    refine numbered.stays (fun key number held => live ▸ held) size (fun key => ?_) known
    rw [Moment.creation?, silent]
    rfl
  | created opened rootFiles new live size announced reply =>
    -- the new number is beyond all that live keys stand for
    have older (key : ProjectKey) (number : Nat) (held : l.registry.live.get? key = some number) :
        number ≠ l.registry.sessions.length := Nat.ne_of_lt (numbered.brought key number held)
    refine ⟨fun key number held => ?_, fun key number held => ?_,
      fun earlier member number handed => ?_, fun k j number held kept => ?_⟩
    · rw [live, get?_live_insert] at held
      rw [lastCreated?_cons, Moment.creation?, announced]
      split at held
      · rename_i same
        cases held
        simp [RegistryEvent.isCreation, RegistryEvent.key, same, reply, Reply.number?]
      · rename_i differs
        simp [RegistryEvent.key, differs, numbered.announced key number held]
    · rw [live, get?_live_insert] at held
      rw [size]
      split at held
      · cases held
        exact Nat.lt_succ_self _
      · exact Nat.lt_succ_of_lt (numbered.brought key number held)
    · rw [size]
      rcases List.mem_cons.mp member with rfl | member
      · rw [reply] at handed
        cases handed
        exact Nat.lt_succ_self _
      · exact Nat.lt_succ_of_lt (numbered.handed earlier member number handed)
    · rw [live, get?_live_insert] at held kept
      split at held <;> split at kept
      · rename_i first second
        exact first.symm.trans second
      · cases held
        exact absurd rfl (older j _ kept)
      · cases kept
        exact absurd rfl (older k _ held)
      · exact numbered.apart k j number held kept
  | closed dropped gone held live size announced silent =>
    refine numbered.stays (fun key number kept => ?_) size (fun key => ?_) fun number handed => ?_
    · rw [live, get?_live_erase] at kept
      split at kept
      · cases kept
      · exact kept
    · rw [Moment.creation?, announced]
      rfl
    · rw [silent] at handed
      cases handed

theorem Course.numbered (course : Course root loader preprocess (m :: before)) :
    Numbered m before := by
  refine course.induct (fun factory => ⟨?_, ?_, ?_, ?_⟩) fun l before m numbered happens =>
    numbered.next happens
  · intro key number held
    cases held
  · intro key number held
    cases held
  · intro earlier member number handed
    cases List.mem_singleton.mp member
    cases handed
  · intro k l number held
    cases held

theorem Moment.next_opening {move : Move} {failure? : Option String}
    (opens : move.opens? m.registry = some (key, failure?)) :
    ∃ queries opened, m.next move = .ofOpening opened ∧
      (m.registry.expecting queries failure?).Opens key opened := by
  cases move with
  | openKey tree queries failure? key newDocument =>
    cases opens
    exact ⟨queries, _, rfl, openKey_opens ..⟩
  | openPath tree queries failure? path newDocument =>
    cases opens
    exact ⟨queries, _, rfl, openKey_opens ..⟩
  | _ => cases opens

/-- Whoever asks for the session of a key, under any spelling, is handed the one with a number. -/
def Moment.HandsOut (m : Moment) (key : ProjectKey) (number : Nat) : Prop :=
  ∀ other : ProjectKey, other.Same key →
    (m.next (.lookup other)).reply = .found (some number) ∧
    ∀ move failure?, move.opens? m.registry = some (other, failure?) →
      (m.next move).reply = .opened (.ok number) ∧ (m.next move).events = [] ∧
      (m.next move).registry.live = m.registry.live ∧
      (m.next move).registry.sessions = m.registry.sessions

/-- A move brings up a session of its own for a key: one that no reply has handed out so far. -/
def Moment.BringsUp (m : Moment) (before : List Moment) (move : Move) (key : ProjectKey) : Prop :=
  (∃ rootFiles, (m.next move).events = [.created key rootFiles]) ∧
  (∃ s : Session, s.Fresh ∧ (m.next move).registry.sessions = m.registry.sessions ++ [s]) ∧
  (m.next move).reply = .opened (.ok m.registry.sessions.length) ∧
  (m.next move).registry.live.get? key = some m.registry.sessions.length ∧
  ∀ earlier ∈ m :: before, earlier.reply.number? ≠ some m.registry.sessions.length

/-- A move reports that no engine came up for a key and leaves all sessions as they were. -/
def Moment.Refuses (m : Moment) (move : Move) (key : ProjectKey) (cause : String) : Prop :=
  (m.next move).reply = .opened (.error ⟨key, cause⟩) ∧ (m.next move).events = [] ∧
  (m.next move).registry.live = m.registry.live ∧
  (m.next move).registry.sessions = m.registry.sessions

theorem Moment.handsOut (held : m.registry.live.get? key = some number) :
    m.HandsOut key number := by
  intro other same
  have live : m.registry.live.get? other = some number := (get?_live_congr _ same).trans held
  refine ⟨congrArg Reply.found live, fun move failure? opens => ?_⟩
  obtain ⟨queries, opened, next, outcome⟩ := m.next_opening opens
  rw [next]
  cases outcome with
  | again handed held =>
    cases held.symm.trans live
    exact ⟨rfl, rfl, rfl, rfl⟩
  | created new => cases new.symm.trans live
  | refused new => cases new.symm.trans live

theorem Course.bringsUp (course : Course root loader preprocess (m :: before)) {move : Move}
    (new : m.registry.live.get? key = none) (opens : move.opens? m.registry = some (key, none)) :
    m.BringsUp before move key := by
  have unused (earlier : Moment) (member : earlier ∈ m :: before) :
      earlier.reply.number? ≠ some m.registry.sessions.length := fun handed =>
    Nat.lt_irrefl _ (course.numbered.handed earlier member _ handed)
  obtain ⟨queries, opened, next, outcome⟩ := m.next_opening opens
  rw [Moment.BringsUp, next]
  cases outcome with
  | again number held => cases new.symm.trans held
  | created _ up rootFiles start s fresh =>
    refine ⟨⟨rootFiles, rfl⟩, ⟨s, fresh, rfl⟩, rfl, ?_, unused⟩
    exact (get?_live_insert m.registry.live).trans (if_pos rfl)
  | refused _ cause down => cases down

theorem Moment.refuses {move : Move} {cause : String} (new : m.registry.live.get? key = none)
    (opens : move.opens? m.registry = some (key, some cause)) : m.Refuses move key cause := by
  obtain ⟨queries, opened, next, outcome⟩ := m.next_opening opens
  rw [Moment.Refuses, next]
  cases outcome with
  | again number held => cases new.symm.trans held
  | created _ up => cases up
  | refused _ told down =>
    cases down
    exact ⟨rfl, rfl, rfl, rfl⟩

/-- One session for each key, over any course of a registry. -/
theorem Course.one_session_each (course : Course root loader preprocess (m :: before)) :
    (∀ key, InTurn (historyOf key (m :: before))) ∧
    (∀ key, (m.registry.live.get? key).isSome ↔
      creations (historyOf key (m :: before)) = closings (historyOf key (m :: before)) + 1) ∧
    m.registry.live.size + closings (history (m :: before)) = creations (history (m :: before)) ∧
    (∀ key number, m.registry.live.get? key = some number →
      lastCreated? key (m :: before) = some number ∧ m.HandsOut key number) ∧
    (∀ k l number, m.registry.live.get? k = some number → m.registry.live.get? l = some number →
      k.Same l) ∧
    ∀ key move, m.registry.live.get? key = none →
      (move.opens? m.registry = some (key, none) → m.BringsUp before move key) ∧
      ∀ cause, move.opens? m.registry = some (key, some cause) → m.Refuses move key cause := by
  have balanced := course.balanced
  have numbered := course.numbered
  refine ⟨balanced.inTurn, fun key => ?_, balanced.total, fun key number held => ?_, numbered.apart,
    fun key move new => ⟨course.bringsUp new, fun cause => Moment.refuses new⟩⟩
  · have count := balanced.count key
    split at count <;> rename_i live <;> simp [live, count]
  · exact ⟨numbered.announced key number held, Moment.handsOut held⟩

/-! A course for the closed cases: an engine fails, a session is brought up and closed, and the
project is asked for again, under two spellings of its key. -/
namespace Sample

def tree : FileTree := MemoryFiles.treeOf (.ofList [(.ofString "/p/tsconfig.json", "\x7b\x7d")])
def lower : ProjectKey := .ofPath (.ofString "/p/tsconfig.json")
def upper : ProjectKey := .ofPath (.ofString "/P/TSconfig.json")

def projects : Loader := ⟨.default, true⟩
def conversion : Preprocessor := fun _ source => ⟨source, .tsx, true⟩

def begun : Moment :=
  ⟨.new (.ofString "/") projects conversion ⟨[], none, 0⟩, .done, []⟩
def refused : Moment := begun.next (.openKey tree [] (some "no memory") lower .plain)
def created : Moment := refused.next (.openKey tree [] none upper .plain)
def closed : Moment := created.next (.close lower)
def reopened : Moment := closed.next (.openPath tree [] none (.ofString "/p/a.ts") .plain)

theorem course_reopened :
    Course (.ofString "/") projects conversion [reopened, closed, created, refused, begun] :=
  .moved (.moved (.moved (.moved (.opened _) _) _) _) _

end Sample

theorem Course.one_session_each_reopened :
    let course := [Sample.reopened, Sample.closed, Sample.created, Sample.refused, Sample.begun]
    Course (.ofString "/") Sample.projects Sample.conversion course ∧
    historyOf Sample.upper course =
      [.created Sample.upper 0, .closed Sample.lower, .created Sample.lower 0] ∧
    InTurn (historyOf Sample.upper course) ∧
    lastCreated? Sample.upper course = some 1 ∧ Sample.reopened.HandsOut Sample.upper 1 := by
  intro course
  obtain ⟨inTurn, -, -, live, -⟩ := one_session_each Sample.course_reopened
  have held : Sample.reopened.registry.live.get? Sample.upper = some 1 := by decide +kernel
  exact ⟨Sample.course_reopened, by decide +kernel, inTurn _, live _ _ held⟩

end Registry

end ComponentProjects
