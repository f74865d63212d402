import ComponentProjects.Proofs.Session.Answers
import ComponentProjects.Proofs.Session.Restart

/-! The dialects that a live engine sees a file in. An update is checked against the dialect its
path is known in; a file that is read is not. So the dialects of an engine's life stay just when
what is read would pass that check, and a component that is closed may come back otherwise. -/
namespace ComponentProjects

/-- An engine is served a path in one dialect all its life, however the path is spelled. -/
def DialectsStay (course : List Moment) : Prop :=
  ∀ m ∈ course, ∀ e ∈ course, m.session.handle = e.session.handle →
    ∀ (p q : Path) (u v : Snapshot), p.real.Same q.real → m.Serves p u → e.Serves q v →
      u.dialect = v.dialect

/-- A component that is read for a live engine would need no new one if the editor gave it. -/
def ReadsFit (course : List Moment) : Prop :=
  ∀ m l before, m :: l :: before <:+ course → m.session.handle = l.session.handle →
    ∀ (p : Path) (u : Snapshot), p.real.isTemplated = true → JustRead l m p.real u →
      Session.needsRestart (l.session.knownDialect? p.real) u.dialect = false

namespace Course

variable {host : Host} {m l : Moment} {before all : List Moment} {p : Path} {u : Snapshot}

theorem dialect_of_script (course : Course host all) (keeps : host.newDocument.KeepsPath)
    (member : m ∈ all) (script : p.isTemplated = false) (held : m.held? p = some u) :
    u.dialect = .ofPath p := by
  have own : ∀ d : Document, ∀ origin, d.path.Same p →
      (Snapshot.ofDocument host.preprocess d origin).value.dialect = .ofPath p := by
    intro d origin same
    rw [Snapshot.dialect_ofDocument_of_plain _ _ _ (same.isTemplated_eq.trans script)]
    exact Dialect.ofPath_eq_of_same same
  cases course.provenance keeps member held with
  | edited d sent same new =>
    rw [new]
    exact own d .editor same
  | loaded tree q same found =>
    obtain ⟨content, rfl⟩ := Host.exists_of_fromTree? found
    exact own _ .disk ((keeps q content).trans same)

/-- From one moment to the next a path that is held is in the dialect it was known in, if what
is read fits. -/
theorem dialect_of_readsFit (course : Course host all) (keeps : host.newDocument.KeepsPath)
    (fit : ReadsFit all) (part : m :: l :: before <:+ all)
    (live : m.session.handle = l.session.handle) (held : m.held? p.real = some u) {k : Dialect}
    (known : lastKnown? l.session.handle (l :: before) p.real = some k) : u.dialect = k := by
  have earlier := (course.suffix part).moved_inv.1
  rw [← earlier.knownDialect?_eq keeps] at known
  cases (course.suffix part).came keeps held with
  | stayed held =>
    rw [Session.knownDialect?, held] at known
    exact Option.some.inj known
  | given d edited same new fits => exact fits live k known
  | read tree q missing same found =>
    have read : JustRead l m p.real u := ⟨missing, held, Host.origin_of_fromTree? found⟩
    -- only a component can clash: a script's extension has the last word
    cases kind : p.real.isTemplated with
    | true =>
      have passes := fit m l before part live p u kind read
      exact Session.needsRestart_eq_false_iff.mp passes k known
    | false =>
      rw [earlier.knownDialect?_eq keeps] at known
      obtain ⟨e, member, -, v, before_held, rfl⟩ := exists_of_lastKnown? known
      have now := (course.suffix part).dialect_of_script keeps (List.mem_cons_self) kind held
      exact now.trans (earlier.dialect_of_script keeps member kind before_held).symm

theorem dialectsStay_iff (course : Course host all) (keeps : host.newDocument.KeepsPath) :
    DialectsStay all ↔ ReadsFit all := by
  constructor
  · intro stay m l before part live p u _ read
    refine Session.needsRestart_eq_false_iff.mpr fun k known => ?_
    rw [(course.suffix part).moved_inv.1.knownDialect?_eq keeps] at known
    obtain ⟨e, member, alive, v, held, rfl⟩ := exists_of_lastKnown? known
    exact stay m (part.subset (.head _)) e (part.subset (.tail _ member)) (live.trans alive.symm)
      p p u v (Path.Same.refl _) (Moment.serves_iff.mpr read.held) (Moment.serves_iff.mpr held)
  · intro fit m hm e he live p q u v same serves served
    have agree : Agree (fun m => (m.held? p.real).map Snapshot.dialect) all := by
      refine course.agree_iff_steps.mpr fun m l before part live a b sees last => ?_
      obtain ⟨u, held, rfl⟩ := Option.map_eq_some_iff.mp sees
      exact course.dialect_of_readsFit keeps fit part live held last
    have held : e.held? p.real = some v :=
      (Table.get?_congr _ same.rank_eq).trans (Moment.serves_iff.mp served)
    exact agree m hm e he live _ _
      (Option.map_eq_some_iff.mpr ⟨u, Moment.serves_iff.mp serves, rfl⟩)
      (Option.map_eq_some_iff.mpr ⟨v, held, rfl⟩)

/-- The dialects of an engine's life stay just when the components read in it fit, and then all
the snapshots the engine was handed of a path are in one dialect. -/
theorem dialects_stay_iff_reads_fit (course : Course host all)
    (keeps : host.newDocument.KeepsPath) :
    (DialectsStay all ↔ ReadsFit all) ∧
    (ReadsFit all → ∀ m ∈ all, ∀ e ∈ all, m.session.handle = e.session.handle →
      ∀ (p q : Path) (u v : Snapshot), p.real.Same q.real →
        (.snapshot p, .snapshot (some u)) ∈ m.event.heard →
        (.snapshot q, .snapshot (some v)) ∈ e.event.heard → u.dialect = v.dialect) := by
  refine ⟨course.dialectsStay_iff keeps, ?_⟩
  intro fit m hm e he live p q u v same heard listened
  have stay := (course.dialectsStay_iff keeps).mpr fit
  exact stay m hm e he live p q u v same (course.serves_of_heard hm heard)
    (course.serves_of_heard he listened)

end Course

namespace Sample

def reread : Moment := closed.next (.ask (disk "ts") (.snapshot app))

theorem course_reread : Course host [reread, closed, edited, opened] := .moved course_closed _

end Sample

/-- No engine comes up in between, and yet the component is served in a second dialect. -/
theorem Course.dialects_change_reread :
    let course := [Sample.reread, Sample.closed, Sample.edited, Sample.opened]
    Course Sample.host course ∧ Sample.host.newDocument.KeepsPath ∧
      ¬ ReadsFit course ∧ ¬ DialectsStay course := by
  intro course
  obtain ⟨stay_iff, -⟩ := dialects_stay_iff_reads_fit Sample.course_reread
    DocumentFactory.plain_keepsPath
  have unfit : ¬ ReadsFit course := by
    intro fit
    have fits := fit Sample.reread Sample.closed _ (List.suffix_refl _) rfl Sample.app
      ⟨Sample.app, 0, "ts", .tsx, .disk, true⟩ rfl ⟨rfl, rfl, rfl⟩
    cases fits
  exact ⟨Sample.course_reread, DocumentFactory.plain_keepsPath, unfit, unfit ∘ stay_iff.mp⟩

end ComponentProjects
