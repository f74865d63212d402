import ComponentProjects.Proofs.Session.Update

/-! What one operation can make of a session: where each snapshot it tracks came from, and what
the live engine is taken to know of a file. Everything about whole courses of a session is
built from this. -/
namespace ComponentProjects.Session

variable {s t : Session} {given? : Option Document} {p : Path} {u : Snapshot}

/-- How a session came to track a snapshot: it did so before, it read a file that was not
tracked, or the editor gave it. The live engine is never given another dialect by the editor. -/
inductive Came (s t : Session) (given? : Option Document) (p : Path) (u : Snapshot) : Prop where
  | stayed (held : s.held.tracked.get? p = some u)
  | read (tree : FileTree) (q : Path) (missing : s.held.tracked.get? p = none) (same : q.Same p)
      (found : s.host.fromTree? tree q = some u)
  | given (d : Document) (edited : given? = some d) (same : d.path.Same p) (new : u = s.incoming d)
      (fits : t.handle = s.handle → ∀ k, s.knownDialect? p = some k → u.dialect = k)

/-- What an operation does to a session, with the document it was for. -/
structure Follows (s : Session) (given? : Option Document) (t : Session) : Prop where
  host : t.host = s.host
  came : ∀ p u, t.held.tracked.get? p = some u → s.Came t given? p u
  known : t.handle = s.handle → ∀ p, t.knownDialect? p =
    ((t.held.tracked.get? p).map Snapshot.dialect).or (s.knownDialect? p)
  renewed : t.handle ≠ s.handle → t.retired = ∅

theorem came_of_loads {tree : FileTree} {wanted : List Path}
    (loads : s.host.Loads tree wanted s.held.tracked t.held.tracked)
    (held : t.held.tracked.get? p = some u) : s.Came t given? p u := by
  rcases loads.held_or_read held with stayed | ⟨missing, q, same, found⟩
  · exact .stayed stayed
  · exact .read tree q missing same found

theorem missing_of_loads {host : Host} {tree : FileTree} {wanted : List Path}
    {before after : Snapshots} (loads : host.Loads tree wanted before after)
    (missing : after.get? p = none) : before.get? p = none := by
  cases held : before.get? p with
  | none => rfl
  | some v =>
    have still := loads.kept p v held
    rw [missing] at still
    cases still

theorem knownDialect?_of_missing
    (missing : t.held.tracked.get? p = none → s.held.tracked.get? p = none)
    (retired : t.held.tracked.get? p = none → t.retired.get? p = s.retired.get? p) :
    t.knownDialect? p =
      ((t.held.tracked.get? p).map Snapshot.dialect).or (s.knownDialect? p) := by
  unfold knownDialect?
  cases held : t.held.tracked.get? p with
  | some v => rfl
  | none => simp [missing held, retired held]

theorem follows_self (s : Session) : s.Follows given? s where
  host := rfl
  came _ _ held := .stayed held
  known _ _ := knownDialect?_of_missing id fun _ => rfl
  renewed live := absurd rfl live

theorem follows_ask (s : Session) (tree : FileTree) (query : Query) :
    s.Follows given? (s.ask tree query).value.2 where
  host := rfl
  came _ _ held := came_of_loads (Host.ask_loads s.held query) held
  known _ _ :=
    knownDialect?_of_missing (missing_of_loads (Host.ask_loads s.held query)) fun _ => rfl
  renewed live := absurd rfl live

/-- The dialect of what is deleted is retired, and so nothing that was known gets lost. -/
theorem knownDialect?_delete (filed : s.Filed) (path p : Path) : (s.delete path).knownDialect? p =
    (((s.delete path).held.tracked.get? p).map Snapshot.dialect).or (s.knownDialect? p) := by
  by_cases same : path.Same p
  · have alike : s.held.tracked.get? path = s.held.tracked.get? p :=
      Table.get?_congr _ same.rank_eq
    cases held : s.held.tracked.get? p with
    | none => simp [knownDialect?, held, delete, alike]
    | some v =>
      have own : rank v.path = rank p := (filed p v held).rank_eq
      simp [knownDialect?, held, delete, alike, Table.get?_insert, own]
  · have kept : (s.delete path).held.tracked.get? p = s.held.tracked.get? p := by
      simp [delete, Table.get?_erase, Path.rank_eq_iff_same, same]
    have retired : (s.delete path).retired.get? p = s.retired.get? p := by
      cases held : s.held.tracked.get? path with
      | none => simp [delete, held]
      | some v =>
        have apart : ¬ v.path.Same p := fun own => same ((filed path v held).symm.trans own)
        simp [delete, held, Table.get?_insert, Path.rank_eq_iff_same, apart]
    exact knownDialect?_of_missing (fun missing => kept ▸ missing) fun _ => retired

theorem follows_delete (filed : s.Filed) (path : Path) : s.Follows given? (s.delete path) where
  host := rfl
  came p u held := by
    simp only [delete, Table.get?_erase] at held
    split at held
    · cases held
    · exact .stayed held
  known _ := knownDialect?_delete filed path
  renewed live := absurd rfl live

variable {factory : EngineFactory} {tree : FileTree} {d : Document}

theorem came_of_trial (apart : ¬ d.path.Same p)
    (held : (s.trial factory tree d).2.tracked.get? p = some u) : s.Came t given? p u := by
  have unread := get?_published_of_not_same (s := s) apart
  rcases (trial_loads s factory tree d).held_or_read held with stayed | ⟨missing, q, same, found⟩
  · exact .stayed (unread.symm.trans stayed)
  · exact .read tree q (unread.symm.trans missing) same found

theorem needsRestart_eq_false_iff {known? : Option Dialect} {next : Dialect} :
    needsRestart known? next = false ↔ ∀ k, known? = some k → next = k := by
  cases known? with
  | none => simp [needsRestart]
  | some known =>
    have fits : needsRestart (some known) next = false ↔ known = next := by simp [needsRestart]
    rw [fits, eq_comm]
    exact ⟨fun same k known => same.trans (Option.some.inj known), fun all => all known rfl⟩

theorem follows_accepted
    (fits : needsRestart (s.knownDialect? d.path) (s.incoming d).dialect = false) :
    s.Follows (some d) { s with held := s.published d, retired := s.retired.erase d.path } where
  host := rfl
  came p u held := by
    by_cases same : d.path.Same p
    · have new : u = s.incoming d :=
        Option.some.inj (held.symm.trans (get?_published_of_same same))
      have known : s.knownDialect? p = s.knownDialect? d.path := by
        simp only [knownDialect?, Table.get?_congr _ same.rank_eq]
      refine .given d rfl same new fun _ => ?_
      rw [new, known]
      exact needsRestart_eq_false_iff.mp fits
    · exact .stayed ((get?_published_of_not_same same).symm.trans held)
  known _ p := by
    by_cases same : d.path.Same p
    · -- the path is known by its new snapshot now, so what was retired for it may go
      have held : (s.published d).tracked.get? p = some (s.incoming d) :=
        get?_published_of_same same
      exact knownDialect?_of_missing (fun missing => by cases held.symm.trans missing)
        fun missing => by cases held.symm.trans missing
    · refine knownDialect?_of_missing (get?_published_of_not_same same).symm.trans fun _ => ?_
      simp [Table.get?_erase, Path.rank_eq_iff_same, same]
  renewed live := absurd rfl live

theorem follows_takenBack (filed : s.Filed) :
    s.Follows (some d) { s with held := s.rolledBack factory tree d } where
  host := rfl
  came p u held := by
    simp only [get?_rolledBack filed] at held
    split at held
    · exact .stayed held
    · rename_i apart
      exact came_of_trial apart held
  known _ p := by
    refine knownDialect?_of_missing (fun missing => ?_) fun _ => rfl
    -- what the engine read before it failed stays, and the document's path is as it was
    simp only [get?_rolledBack filed] at missing
    split at missing
    · exact missing
    · rename_i apart
      have unread := missing_of_loads (trial_loads s factory tree d) missing
      exact (get?_published_of_not_same apart).symm.trans unread
  renewed live := absurd rfl live

theorem nextHandle_ne (s : Session) (factory : EngineFactory) :
    s.nextHandle factory ≠ s.handle := by
  intro live
  have older := congrArg EngineHandle.generation live
  simp [nextHandle] at older

theorem follows_restarted : s.Follows (some d)
    { s with
      held := (s.trial factory tree d).2, handle := s.nextHandle factory, retired := ∅ } where
  host := rfl
  came p u held := by
    by_cases same : d.path.Same p
    · have new : u = s.incoming d := Option.some.inj (held.symm.trans (get?_trial_of_same same))
      exact .given d rfl same new fun live => absurd live (s.nextHandle_ne factory)
    · exact came_of_trial same held
  known live := absurd live (s.nextHandle_ne factory)
  renewed _ := rfl

theorem follows_update (filed : s.Filed) (factory : EngineFactory) (tree : FileTree)
    (d : Document) : s.Follows (some d) (s.update factory tree d).value.2 := by
  have case := update_updates s factory tree d
  generalize (s.update factory tree d).value = result at case
  cases case with
  | passedOver again => exact follows_self s
  | accepted fresh fits => exact follows_accepted fits
  | restarted fresh clash up => exact follows_restarted
  | takenBack fresh clash cause down => exact follows_takenBack filed

end ComponentProjects.Session
