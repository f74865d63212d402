import Mathlib
import ComponentProjects.Proofs.Session.Answers
import ComponentProjects.Proofs.Session.Life

/-! The versions that a live engine tells changes by. Those of the editor and those of files never
look alike, and the editor gives each of its own to one content. All that is read from files is of
one version, so the versions of an engine's life tell every change just when a file that is read
once more has the text it had before. -/
namespace ComponentProjects

/-- The text of a snapshot that was read from a file. -/
def Snapshot.fileText? (u : Snapshot) : Option String :=
  if u.origin = .disk then some u.text else none

/-- The text that a path was last read with in an engine's life. -/
def lastRead? (engine : EngineHandle) (course : List Moment) (path : Path) : Option String :=
  lastSeen? (fun m => (m.held? path).bind Snapshot.fileText?) engine course

/-- Where an engine is told the same version twice in its life, it is served the same text. -/
def VersionsTell (course : List Moment) : Prop :=
  ∀ m ∈ course, ∀ e ∈ course, m.session.handle = e.session.handle →
    ∀ (p q : Path) (version : String), p.real.Same q.real → version ≠ "" →
      m.Tells p version → e.Tells q version →
        ∃ u v, m.Serves p u ∧ e.Serves q v ∧ u.text = v.text

/-- The editor never gives a version of a path to another content. -/
def OneContentPerVersion (course : List Moment) : Prop :=
  ∀ d ∈ documents course, ∀ f ∈ documents course, d.path.Same f.path → d.version = f.version →
    d.content = f.content

/-- However the editor spells a path, the preprocessor takes it for the same. -/
def SpellingsAlike (preprocess : Preprocessor) (course : List Moment) : Prop :=
  ∀ d ∈ documents course, ∀ f ∈ documents course, d.path.Same f.path →
    preprocess d.path = preprocess f.path

/-- A file that is read once more for a live engine has the text it was last read with. -/
def RereadAlike (course : List Moment) : Prop :=
  ∀ m l before, m :: l :: before <:+ course → m.session.handle = l.session.handle →
    ∀ (p : Path) (u : Snapshot) (text : String), JustRead l m p.real u →
      lastRead? l.session.handle (l :: before) p.real = some text → u.text = text

namespace Snapshot

variable {u v : Snapshot}

theorem fileText?_eq_some_iff {text : String} :
    u.fileText? = some text ↔ u.origin = .disk ∧ u.text = text := by
  unfold fileText?
  split <;> simp_all

theorem not_mem_toString (n : Int) : 'd' ∉ (toString n).toList := by
  have digits (k : Nat) : 'd' ∉ Nat.toDigits 10 k := fun letter =>
    absurd (Nat.isDigit_of_mem_toDigits (by decide) (by decide) letter) (by decide)
  rw [Int.toString_eq_repr, Int.repr_eq_if]
  split <;> simp [digits]

theorem versionText_eq_iff :
    u.versionText = v.versionText ↔ u.origin = v.origin ∧ u.version = v.version := by
  -- numbers are written without the letters that mark a version from disk
  have apart (a b : Int) : toString a ≠ "disk:" ++ toString b := by
    intro same
    have marked : 'd' ∈ (toString a).toList := by simp [same]
    exact not_mem_toString a marked
  unfold versionText
  cases u.origin <;> cases v.origin
  · simp
  · simpa using apart u.version v.version
  · simpa using (apart v.version u.version).symm
  · simp

theorem versionText_ne_empty (u : Snapshot) : u.versionText ≠ "" := by
  unfold versionText
  cases u.origin with
  | disk => simp
  | editor =>
    simp only [Int.toString_eq_repr, Int.repr_eq_if]
    split <;> simp

theorem text_ofDocument_congr {preprocess : Preprocessor} {d f : Document} (origin : Origin)
    (same : d.path.Same f.path) (spelling : preprocess d.path = preprocess f.path)
    (content : d.content = f.content) :
    (ofDocument preprocess d origin).value.text = (ofDocument preprocess f origin).value.text := by
  have alike : (preprocess.convert d.path d.content).value =
      (preprocess.convert f.path f.content).value := by
    simp only [Preprocessor.convert, content, spelling]
    split <;> rfl
  unfold ofDocument
  rw [same.isTemplated_eq]
  split
  · exact congrArg Conversion.text alike
  · exact content

end Snapshot

theorem Provenance.version_of_disk {host : Host} {course : List Moment} {p : Path} {u : Snapshot}
    (plain : host.newDocument = .plain) (made : Provenance host course p u)
    (disk : u.origin = .disk) : u.version = 0 := by
  cases made with
  | edited d sent same new =>
    rw [new, Snapshot.origin_ofDocument] at disk
    cases disk
  | loaded tree q same found =>
    obtain ⟨content, rfl⟩ := Host.exists_of_fromTree? found
    rw [Snapshot.version_ofDocument, plain]
    rfl

theorem Provenance.document_of_editor {host : Host} {course : List Moment} {p : Path}
    {u : Snapshot} (made : Provenance host course p u) (editor : u.origin = .editor) :
    ∃ d ∈ documents course, d.path.Same p ∧
      u = (Snapshot.ofDocument host.preprocess d .editor).value := by
  cases made with
  | edited d sent same new => exact ⟨d, sent, same, new⟩
  | loaded tree q same found =>
    rw [Host.origin_of_fromTree? found] at editor
    cases editor

namespace Course

variable {host : Host} {m l e : Moment} {before all : List Moment} {p q : Path} {u v : Snapshot}

theorem text_of_editor (course : Course host all) (keeps : host.newDocument.KeepsPath)
    (spellings : SpellingsAlike host.preprocess all) (once : OneContentPerVersion all)
    (hm : m ∈ all) (he : e ∈ all) (same : p.Same q) (held : m.held? p = some u)
    (found : e.held? q = some v) (editor : u.origin = .editor)
    (alike : u.origin = v.origin ∧ u.version = v.version) : u.text = v.text := by
  obtain ⟨d, sent, d_same, rfl⟩ := (course.provenance keeps hm held).document_of_editor editor
  obtain ⟨f, given, f_same, rfl⟩ :=
    (course.provenance keeps he found).document_of_editor (alike.1.symm.trans editor)
  have path : d.path.Same f.path := d_same.trans (same.trans f_same.symm)
  have version : d.version = f.version := by
    simpa only [Snapshot.version_ofDocument] using alike.2
  exact Snapshot.text_ofDocument_congr .editor path (spellings d sent f given path)
    (once d sent f given path version)

/-- If rereading never shows a change, all that was read of a path in an engine's life has one
text. -/
theorem agree_of_rereadAlike (course : Course host all) (keeps : host.newDocument.KeepsPath)
    (alike : RereadAlike all) (p : Path) :
    Agree (fun m => (m.held? p.real).bind Snapshot.fileText?) all := by
  refine course.agree_iff_steps.mpr fun m l before part live a b sees last => ?_
  obtain ⟨u, held, text⟩ := Option.bind_eq_some_iff.mp sees
  cases (course.suffix part).came keeps held with
  | stayed before_held =>
    have saw : (l.held? p.real).bind Snapshot.fileText? = some a :=
      Option.bind_eq_some_iff.mpr ⟨u, before_held, text⟩
    rw [lastSeen?_of_live _ rfl, saw] at last
    exact Option.some.inj last
  | read tree q missing same found =>
    obtain ⟨disk, rfl⟩ := Snapshot.fileText?_eq_some_iff.mp text
    exact alike m l before part live p u b ⟨missing, held, disk⟩ last
  | given d edited same new fits =>
    obtain ⟨disk, -⟩ := Snapshot.fileText?_eq_some_iff.mp text
    rw [new, Session.incoming, Snapshot.origin_ofDocument] at disk
    cases disk

theorem rereadAlike_of_versionsTell (course : Course host all) (plain : host.newDocument = .plain)
    (tell : VersionsTell all) : RereadAlike all := by
  have keeps : host.newDocument.KeepsPath := plain ▸ DocumentFactory.plain_keepsPath
  intro m l before part live p u text read last
  obtain ⟨e, member, alive, saw⟩ := exists_of_lastSeen? last
  obtain ⟨v, held, last_text⟩ := Option.bind_eq_some_iff.mp saw
  obtain ⟨disk, rfl⟩ := Snapshot.fileText?_eq_some_iff.mp last_text
  have hm : m ∈ all := part.subset (.head _)
  have he : e ∈ all := part.subset (.tail _ member)
  have version : u.versionText = v.versionText := by
    refine Snapshot.versionText_eq_iff.mpr ⟨read.disk.trans disk.symm, ?_⟩
    rw [(course.provenance keeps hm read.held).version_of_disk plain read.disk,
      (course.provenance keeps he held).version_of_disk plain disk]
  have known := v.versionText_ne_empty
  obtain ⟨now, earlier, serves, served, same⟩ := tell m hm e he (live.trans alive.symm) p p
    v.versionText (Path.Same.refl _) known
    ((Moment.tells_iff known).mpr ⟨u, read.held, version⟩)
    ((Moment.tells_iff known).mpr ⟨v, held, rfl⟩)
  cases (Moment.serves_iff.mp serves).symm.trans read.held
  cases (Moment.serves_iff.mp served).symm.trans held
  exact same

theorem versionsTell_of_rereadAlike (course : Course host all)
    (keeps : host.newDocument.KeepsPath) (spellings : SpellingsAlike host.preprocess all)
    (once : OneContentPerVersion all) (alike : RereadAlike all) : VersionsTell all := by
  intro m hm e he live p q version same known tells told
  obtain ⟨u, held, rfl⟩ := (Moment.tells_iff known).mp tells
  obtain ⟨v, found, version⟩ := (Moment.tells_iff known).mp told
  refine ⟨u, v, Moment.serves_iff.mpr held, Moment.serves_iff.mpr found, ?_⟩
  have versions := Snapshot.versionText_eq_iff.mp version.symm
  cases origin : u.origin with
  | editor =>
    exact course.text_of_editor keeps spellings once hm he same held found origin versions
  | disk =>
    have other : e.held? p.real = some v := (Table.get?_congr _ same.rank_eq).trans found
    have disk : v.origin = .disk := versions.1.symm.trans origin
    refine course.agree_of_rereadAlike keeps alike p m hm e he live u.text v.text ?_ ?_
    · exact Option.bind_eq_some_iff.mpr
        ⟨u, held, Snapshot.fileText?_eq_some_iff.mpr ⟨origin, rfl⟩⟩
    · exact Option.bind_eq_some_iff.mpr
        ⟨v, other, Snapshot.fileText?_eq_some_iff.mpr ⟨disk, rfl⟩⟩

/-- The versions of an engine's life tell every change just when rereading shows none, and then a
version that the engine was told twice stands for one text. -/
theorem versions_tell_iff_reread_alike (course : Course host all)
    (plain : host.newDocument = .plain) (spellings : SpellingsAlike host.preprocess all)
    (once : OneContentPerVersion all) :
    (VersionsTell all ↔ RereadAlike all) ∧
    (RereadAlike all → ∀ m ∈ all, ∀ e ∈ all, m.session.handle = e.session.handle →
      ∀ (p q : Path) (version : String), p.real.Same q.real → version ≠ "" →
        (.version p, .text version) ∈ m.event.heard →
        (.version q, .text version) ∈ e.event.heard →
          ∃ u v, m.Serves p u ∧ e.Serves q v ∧ u.text = v.text) := by
  have keeps : host.newDocument.KeepsPath := plain ▸ DocumentFactory.plain_keepsPath
  have tells := course.versionsTell_of_rereadAlike keeps spellings once
  refine ⟨⟨course.rereadAlike_of_versionsTell plain, tells⟩, ?_⟩
  intro alike m hm e he live p q version same known heard listened
  exact tells alike m hm e he live p q version same known (course.tells_of_heard hm known heard)
    (course.tells_of_heard he known listened)

end Course

namespace Sample

/-- The closed component is read, closed and read again when its file has changed. -/
def looked : Moment := closed.next (.ask (disk "js") (.version app))
def dropped : Moment := looked.next (.delete app)
def lookedAgain : Moment := dropped.next (.ask (disk "changed") (.version app))

theorem course_lookedAgain :
    Course host [lookedAgain, dropped, looked, closed, edited, opened] :=
  .moved (.moved (.moved course_closed _) _) _

end Sample

/-- The engine is told one version for two texts, though the editor sent but one document. -/
theorem Course.versions_hide_lookedAgain :
    let course := [Sample.lookedAgain, Sample.dropped, Sample.looked, Sample.closed,
      Sample.edited, Sample.opened]
    Course Sample.host course ∧ Sample.host.newDocument = .plain ∧
      SpellingsAlike Sample.host.preprocess course ∧ OneContentPerVersion course ∧
      ¬ RereadAlike course ∧ ¬ VersionsTell course := by
  intro course
  have spellings : SpellingsAlike Sample.host.preprocess course := fun _ _ _ _ _ => rfl
  have once : OneContentPerVersion course := by
    intro d sent f given _ _
    have only : documents course = [⟨Sample.app, 1, "js"⟩] := rfl
    rw [only] at sent given
    rw [List.mem_singleton.mp sent, List.mem_singleton.mp given]
  obtain ⟨tell_iff, -⟩ :=
    versions_tell_iff_reread_alike Sample.course_lookedAgain rfl spellings once
  have changed : ¬ RereadAlike course := by
    intro alike
    have text := alike Sample.lookedAgain Sample.dropped _ (List.suffix_refl _) rfl Sample.app
      ⟨Sample.app, 0, "changed", .jsx, .disk, true⟩ "js" ⟨rfl, rfl, rfl⟩ rfl
    exact absurd text (by decide)
  exact ⟨Sample.course_lookedAgain, rfl, spellings, once, changed, changed ∘ tell_iff.mp⟩

end ComponentProjects
