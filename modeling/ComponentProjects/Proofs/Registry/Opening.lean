import ComponentProjects.Proofs.Session.Course
import ComponentProjects.Proofs.Table.Reading
import ComponentProjects.Registry

/-! The ways of asking a registry for the session of a key. A live session is handed out again; a
new one gets a number of its own and is announced; and when no engine comes up for it, the registry
is as if nobody had asked. -/
namespace ComponentProjects

theorem ProjectKey.rank_eq_iff_same {k l : ProjectKey} : rank k = rank l ↔ k.Same l := by
  constructor
  · intro same
    exact (List.map_inj_right fun _ _ => Char.toNat_inj.mp).mp (List.cons.inj same).1
  · intro same
    exact congrArg (fun text : List Char => [text.map Char.toNat]) same

/-- A session that no editor has sent a document to yet. -/
structure Session.Fresh (s : Session) : Prop where
  generation : s.handle.generation = 0
  disk : ∀ p u, s.held.tracked.get? p = some u → u.origin = .disk

theorem Session.fresh_of_opened {key : ProjectKey} {host : Host} {factory : EngineFactory}
    {tree : FileTree} {s : Session} {start : EngineStart}
    (up : (Session.new key host factory tree).value = (.ok s, start)) : s.Fresh := by
  obtain ⟨-, -, rfl⟩ := Session.opened_eq up
  refine ⟨rfl, fun p u held => ?_⟩
  obtain ⟨q, -, -, found⟩ := (Host.askAll_loads _ _).read p u rfl held
  exact Host.origin_of_fromTree? found

namespace Registry

variable {r : Registry} {tree : FileTree} {key : ProjectKey} {newDocument : DocumentFactory}
  {number : Nat}

/-- The registry when the next engine start is going to go a certain way. -/
def expecting (r : Registry) (queries : List Query) (failure? : Option String) : Registry :=
  { r with factory := { r.factory with queries, failure? } }

/-- The ways of asking for the session of a key. -/
inductive Opens (r : Registry) (key : ProjectKey) : Opening × Registry → Prop where
  | again (number : Nat) (live : r.live.get? key = some number) :
    Opens r key (⟨.ok number, [], none⟩, r)
  | created (new : r.live.get? key = none) (up : r.factory.failure? = none) (rootFiles : Nat)
      (start : EngineStart) (s : Session) (fresh : s.Fresh) :
    Opens r key (⟨.ok r.sessions.length, [.created key rootFiles], some start⟩,
      { r with factory := r.factory.afterStart, sessions := r.sessions ++ [s],
               live := r.live.insert key r.sessions.length })
  | refused (new : r.live.get? key = none) (cause : String)
      (down : r.factory.failure? = some cause) (start : EngineStart) :
    Opens r key (⟨.error ⟨key, cause⟩, [], some start⟩, r)

theorem new_of_failure {host : Host} {factory : EngineFactory} {cause : String}
    (down : factory.failure? = some cause) : ∃ start,
      (Session.new key host factory tree).value = (.error ⟨key, cause⟩, start) := by
  refine ⟨(factory.start host tree .nothing).value.1, ?_⟩
  simp only [Session.new, Noted.value_bind, down]
  rfl

theorem new_of_no_failure {host : Host} {factory : EngineFactory} (up : factory.failure? = none) :
    ∃ s start, (Session.new key host factory tree).value = (.ok s, start) := by
  let held := (factory.start host tree .nothing).value.2
  refine ⟨⟨key, host, held, ⟨factory.built, 0⟩, ∅⟩, (factory.start host tree .nothing).value.1, ?_⟩
  simp only [Session.new, Noted.value_bind, up]
  rfl

theorem openKey_opens (r : Registry) (tree : FileTree) (key : ProjectKey)
    (newDocument : DocumentFactory) : Opens r key (r.openKey tree key newDocument).value := by
  unfold openKey
  cases live : r.live.get? key with
  | some number => exact .again number live
  | none =>
    simp only [bringUp, Noted.value_bind]
    cases failure : r.factory.failure? with
    | some cause =>
      obtain ⟨start, down⟩ := new_of_failure failure
      have unchanged : r.factory.afterStart = r.factory := by
        simp [EngineFactory.afterStart, failure]
      rw [down, unchanged]
      exact .refused live cause failure start
    | none =>
      obtain ⟨s, start, up⟩ := new_of_no_failure failure
      rw [up]
      exact .created live failure _ start s (Session.fresh_of_opened up)

end Registry

end ComponentProjects
