import ComponentProjects.Project.File
import ComponentProjects.Proofs.Json.Scanning

/-! Decorated JSON is read as the JSON that it decorates. Blanks and comments may stand, go and come
between any two tokens, and a comma before a bracket that closes; what is taken out again is what
came, up to blanks. The scanner that takes it out and the one that looks ahead of a comma pass over
the same comments. -/
namespace ComponentProjects.Json

open Relaxed (Mode plain plainFrom nextSignificant)
open Scan (Ink isBlank)

/-- What may come between two tokens. -/
inductive Piece where
  | blank (c : Char)
  | block (content : List Char)
  | line (content : List Char)

namespace Piece

def text : Piece → List Char
  | .blank c => [c]
  | .block content => '/' :: '*' :: content ++ ['*', '/']
  | .line content => '/' :: '/' :: content ++ ['\n']

/-- A comment ends where it can end first. -/
def Fits : Piece → Prop
  | .blank c => isBlank c = true
  | .block content => ¬ ['*', '/'] <:+: content ++ ['*']
  | .line content => '\n' ∉ content

instance : (piece : Piece) → Decidable piece.Fits
  | .blank c => inferInstanceAs (Decidable (isBlank c = true))
  | .block content => inferInstanceAs (Decidable (¬ ['*', '/'] <:+: content ++ ['*']))
  | .line content => inferInstanceAs (Decidable ('\n' ∉ content))

/-- The blank that a piece leaves. -/
def trace : Piece → Char
  | .blank c => c
  | .block _ => ' '
  | .line _ => '\n'

end Piece

/-- The first character that is no blank. -/
def ink? (text : List Char) : Option Char := text.find? fun c => !isBlank c

/-- A text from where a scan stands, and the same text decorated. The flag says whether a comma may
still come before the next token; of the text's own blanks any may go. -/
inductive Dressed : Bool → Scan → List Char → List Char → Prop where
  | done (spare : Bool) (s : Scan) : Dressed spare s [] []
  | unended {spare : Bool} {s : Scan} (content : List Char) (plain : '\n' ∉ content)
      (between : s.Between none) : Dressed spare s [] ('/' :: '/' :: content)
  | kept {spare : Bool} {s t : Scan} {text decorated : List Char} (c : Char)
      (step : s.step? c = some t) (rest : Dressed (spare || !isBlank c) t text decorated) :
    Dressed spare s (c :: text) (c :: decorated)
  | left {spare : Bool} {s t : Scan} {text decorated : List Char} (c : Char)
      (blank : isBlank c = true) (between : s.Between (some c)) (step : s.step? c = some t)
      (rest : Dressed spare t text decorated) : Dressed spare s (c :: text) decorated
  | inserted {spare : Bool} {s : Scan} {text decorated : List Char} (piece : Piece)
      (fits : piece.Fits) (between : s.Between text.head?)
      (rest : Dressed spare s text decorated) : Dressed spare s text (piece.text ++ decorated)
  | comma {s : Scan} {text decorated : List Char} (between : s.Between text.head?)
      (closes : Relaxed.closes (ink? text) = true) (rest : Dressed false s text decorated) :
    Dressed true s text (',' :: decorated)

/-- A text and the same text with other blanks between its tokens. -/
inductive Spread : Scan → List Char → List Char → Prop where
  | done (s : Scan) : Spread s [] []
  | kept {s t : Scan} {text spread : List Char} (c : Char) (step : s.step? c = some t)
      (rest : Spread t text spread) : Spread s (c :: text) (c :: spread)
  | left {s t : Scan} {text spread : List Char} (c : Char) (blank : isBlank c = true)
      (between : s.Between (some c)) (step : s.step? c = some t) (rest : Spread t text spread) :
    Spread s (c :: text) spread
  | inserted {s : Scan} {text spread : List Char} (c : Char) (blank : isBlank c = true)
      (between : s.Between text.head?) (rest : Spread s text spread) : Spread s text (c :: spread)

variable {s t : Scan} {c : Char} {text decorated rest content : List Char} {now tokens : List Token}
  {spare : Bool}

/-! Passing over comments -/

/-- Whatever goes through block comments as both scanners do ends where the first one is closed. -/
theorem pass_block (pass : Mode → List Char → α)
    (step : ∀ last c rest, pass (.block last) (c :: rest) =
      pass (if last = '*' ∧ c = '/' then .code else .block c) rest)
    {last : Char} (fits : ¬ ['*', '/'] <:+: last :: content ++ ['*']) :
    pass (.block last) (content ++ '*' :: '/' :: rest) = pass .code rest := by
  induction content generalizing last with
  | nil =>
    rw [List.nil_append, step, if_neg (by simp), step, if_pos ⟨rfl, rfl⟩]
  | cons c content ih =>
    have apart : ¬ (last = '*' ∧ c = '/') := by
      rintro ⟨rfl, rfl⟩
      exact fits ⟨[], content ++ ['*'], rfl⟩
    rw [List.cons_append, step, if_neg apart]
    exact ih fun inside => fits (inside.trans (List.suffix_cons _ _).isInfix)

theorem pass_line (pass : Mode → List Char → α)
    (step : ∀ c rest, c ≠ '\n' → pass .line (c :: rest) = pass .line rest)
    (plain : '\n' ∉ content) : pass .line (content ++ rest) = pass .line rest := by
  induction content with
  | nil => rfl
  | cons c content ih =>
    obtain ⟨other, plain⟩ := not_or.mp (mt List.mem_cons.mpr plain)
    rw [List.cons_append, step c _ (Ne.symm other), ih plain]

theorem not_infix_of_fits (fits : (Piece.block content).Fits) :
    ¬ ['*', '/'] <:+: '\x00' :: content ++ ['*'] := by
  intro inside
  rcases List.infix_cons_iff.mp inside with front | inside
  · obtain ⟨rest, front⟩ := front
    cases front
  · exact fits inside

/-! Blanks and ink -/

theorem plainFrom_code {c : Char} (quote : c ≠ '\x22') (slash : c ≠ '/')
    (stays : c = ',' → Relaxed.closes (nextSignificant .code rest) = false) :
    plainFrom .code (c :: rest) = c :: plainFrom .code rest := by
  by_cases comma : c = ','
  · simp [plainFrom, quote, slash, stays comma]
  · simp [plainFrom, quote, slash, comma]

theorem plainFrom_blank (blank : isBlank c = true) :
    plainFrom .code (c :: rest) = c :: plainFrom .code rest := by
  have other (d : Char) (not : isBlank d = false) : c ≠ d := by
    rintro rfl
    rw [blank] at not
    cases not
  exact plainFrom_code (other _ (by decide)) (other _ (by decide)) fun comma =>
    absurd comma (other _ (by decide))

theorem nextSignificant_blank (blank : isBlank c = true) :
    nextSignificant .code (c :: rest) = nextSignificant .code rest := by
  simp [nextSignificant, Scan.text_isBlank blank]

theorem nextSignificant_ink (ink : Ink c) : nextSignificant .code (c :: rest) = some c := by
  simp [nextSignificant, ink.not_text_isBlank, ink.slash]

theorem plainFrom_piece {piece : Piece} (fits : piece.Fits) (rest : List Char) :
    plainFrom .code (piece.text ++ rest) = piece.trace :: plainFrom .code rest := by
  cases piece with
  | blank c => exact plainFrom_blank fits
  | block content =>
    have passed : plainFrom (.block '\x00') (content ++ '*' :: '/' :: rest) =
        plainFrom .code rest :=
      pass_block plainFrom (fun _ _ _ => rfl) (not_infix_of_fits fits)
    simpa [plainFrom, Piece.text, Piece.trace] using passed
  | line content =>
    have passed : plainFrom .line (content ++ '\n' :: rest) = plainFrom .line ('\n' :: rest) :=
      pass_line plainFrom (fun c rest other => by simp [plainFrom, other]) fits
    simpa [plainFrom, Piece.text, Piece.trace] using passed

theorem nextSignificant_piece {piece : Piece} (fits : piece.Fits) (rest : List Char) :
    nextSignificant .code (piece.text ++ rest) = nextSignificant .code rest := by
  have slash : Text.isBlank '/' = false := by decide
  cases piece with
  | blank c => exact nextSignificant_blank fits
  | block content =>
    have passed : nextSignificant (.block '\x00') (content ++ '*' :: '/' :: rest) =
        nextSignificant .code rest :=
      pass_block nextSignificant (fun _ _ _ => rfl) (not_infix_of_fits fits)
    simpa [nextSignificant, Piece.text, slash] using passed
  | line content =>
    have passed : nextSignificant .line (content ++ '\n' :: rest) =
        nextSignificant .line ('\n' :: rest) :=
      pass_line nextSignificant (fun c rest other => by simp [nextSignificant, other]) fits
    simpa [nextSignificant, Piece.text, slash] using passed

theorem plainFrom_unended (plain : '\n' ∉ content) :
    plainFrom .code ('/' :: '/' :: content) = [] := by
  have passed : plainFrom .line (content ++ []) = plainFrom .line [] :=
    pass_line plainFrom (fun c rest other => by simp [plainFrom, other]) plain
  simpa [plainFrom] using passed

theorem nextSignificant_unended (plain : '\n' ∉ content) :
    nextSignificant .code ('/' :: '/' :: content) = none := by
  have slash : Text.isBlank '/' = false := by decide
  have passed : nextSignificant .line (content ++ []) = nextSignificant .line [] :=
    pass_line nextSignificant (fun c rest other => by simp [nextSignificant, other]) plain
  simpa [nextSignificant, slash] using passed

/-! The two scanners along a text -/

/-- What the scanner of comments takes a place for. -/
def mode : Pending → Mode
  | .none | .word _ | .numeral _ => .code
  | .text _ | .hex _ _ => .string
  | .escape _ => .escape

theorem mode_of_isOutside {p : Pending} (isOutside : p.isOutside = true) : mode p = .code := by
  cases p <;> first | rfl | cases isOutside

/-- Both scanners keep in step, but for a comma that goes. -/
theorem plainFrom_kept (step : s.step? c = some t)
    (stays : s.pending.isOutside = true → c = ',' →
      Relaxed.closes (nextSignificant .code rest) = false) :
    plainFrom (mode s.pending) (c :: rest) = c :: plainFrom (mode t.pending) rest := by
  by_cases isOutside : s.pending.isOutside = true
  · obtain ⟨scanned, leads⟩ := Scan.outside_cases isOutside step
    rw [mode_of_isOutside isOutside]
    split at leads
    · rename_i quote
      simp [leads, mode, plainFrom, quote]
    · rename_i quote
      have slash : c ≠ '/' := by
        rintro rfl
        rcases scanned with blank | ink
        · cases blank
        · exact ink.slash rfl
      rw [mode_of_isOutside leads]
      exact plainFrom_code quote slash (stays isOutside)
  · obtain ⟨tokens, pending⟩ := s
    cases pending with
    | text parts =>
      simp only [Scan.step?] at step
      split_ifs at step with quote escape control
      · cases step
        simp [mode, plainFrom, quote]
      · cases step
        simp [mode, plainFrom, escape]
      · cases step
        simp [mode, plainFrom, quote, escape]
    | escape parts =>
      simp only [Scan.step?] at step
      split_ifs at step
      · cases step
        rfl
      · obtain ⟨e, -, rfl⟩ := Option.map_eq_some_iff.mp step
        rfl
    | hex parts digits =>
      obtain ⟨d, digit, step⟩ := Option.bind_eq_some_iff.mp step
      have other (e : Char) (none : Scan.hexDigit? e = Option.none) : c ≠ e := by
        rintro rfl
        cases none.symm.trans digit
      have stays : plainFrom .string (c :: rest) = c :: plainFrom .string rest := by
        simp [plainFrom, other '\\' (by decide), other '\x22' (by decide)]
      dsimp only at step
      split_ifs at step <;> cases step <;> exact stays
    | none | word _ | numeral _ => exact absurd rfl isOutside

theorem ink?_blank (blank : isBlank c = true) : ink? (c :: text) = ink? text := by
  simp [ink?, blank]

theorem ink?_ink (ink : Ink c) : ink? (c :: text) = some c := by
  simp [ink?, ink.not_isBlank]

theorem isOutside_of_blank (isOutside : s.pending.isOutside = true) (blank : isBlank c = true)
    (step : s.step? c = some t) : t.pending.isOutside = true := by
  obtain ⟨-, leads⟩ := Scan.outside_cases isOutside step
  split at leads
  · subst c
    cases blank
  · exact leads

/-- The look ahead sees the text's own next character, or else a comma that came before it. -/
theorem Dressed.next (dressed : Dressed spare s text decorated)
    (isOutside : s.pending.isOutside = true) :
    nextSignificant .code decorated = ink? text ∨
      (spare = true ∧ nextSignificant .code decorated = some ',') := by
  induction dressed with
  | done => exact .inl rfl
  | unended content plain => exact .inl (nextSignificant_unended plain)
  | @kept spare s t text decorated c step rest ih =>
    rcases (Scan.outside_cases isOutside step).1 with blank | ink
    · rw [ink?_blank blank, nextSignificant_blank blank]
      simpa [blank] using ih (isOutside_of_blank isOutside blank step)
    · exact .inl ((nextSignificant_ink ink).trans (ink?_ink ink).symm)
  | left c blank between step rest ih =>
    rw [ink?_blank blank]
    exact ih (isOutside_of_blank isOutside blank step)
  | inserted piece fits between rest ih =>
    rw [nextSignificant_piece fits]
    exact ih isOutside
  | comma between closes rest ih =>
    exact .inr ⟨rfl, nextSignificant_ink (Scan.ink_of_mem (by decide))⟩

/-- No bracket closes behind a comma of the text's own. -/
theorem not_closes_behind_comma (wellSet : WellSet tokens)
    (finish : Scan.finish? ⟨.comma :: now, .none⟩ text = some tokens) :
    Relaxed.closes (ink? text) = false := by
  induction text with
  | nil => rfl
  | cons c text ih =>
    rw [Scan.finish?_cons] at finish
    obtain ⟨t, step, finish⟩ := Option.bind_eq_some_iff.mp finish
    rcases (Scan.outside_cases (s := ⟨.comma :: now, .none⟩) rfl step).1 with blank | ink
    · rw [ink?_blank blank]
      have same : t = ⟨.comma :: now, .none⟩ := by
        simp only [Scan.step?, Scan.begin?, blank, if_true] at step
        exact (Option.some.inj step).symm
      exact ih (same ▸ finish)
    · rw [ink?_ink ink]
      refine Bool.eq_false_iff.mpr fun closes => ?_
      obtain ⟨token, closing, behind⟩ :
          ∃ token : Token, token.closes = true ∧ t = ⟨token :: .comma :: now, .none⟩ := by
        simp only [Relaxed.closes, Option.some.injEq, Bool.or_eq_true, decide_eq_true_eq] at closes
        rcases closes with rfl | rfl <;> exact ⟨_, rfl, (Option.some.inj step).symm⟩
      have part : token :: .comma :: now <:+ tokens := by
        subst behind
        exact Scan.suffix_of_finish? finish
      rw [wellSet.commas token now part] at closing
      cases closing

theorem Scan.comma_of_step? (isOutside : s.pending.isOutside = true) (step : s.step? ',' = some t) :
    ∃ now, t = ⟨.comma :: now, .none⟩ := by
  rcases Scan.between_or_scalar isOutside step with between | ⟨-, -, -, letter | mark⟩
  · rw [Scan.step?_between between] at step
    obtain ⟨now, -, begun⟩ := Option.bind_eq_some_iff.mp step
    exact ⟨now, (Option.some.inj begun).symm⟩
  · cases letter
  · cases mark

/-- A comma of the text's own stays, whatever decorates the text behind it. -/
theorem Dressed.comma_stays (dressed : Dressed spare t text decorated) (wellSet : WellSet tokens)
    (isOutside : s.pending.isOutside = true) (step : s.step? ',' = some t)
    (finish : t.finish? text = some tokens) :
    Relaxed.closes (nextSignificant .code decorated) = false := by
  obtain ⟨now, rfl⟩ := Scan.comma_of_step? isOutside step
  rcases dressed.next rfl with seen | ⟨-, seen⟩
  · rw [seen]
    exact not_closes_behind_comma wellSet finish
  · rw [seen]
    decide

/-- Taking out the decoration leaves the text with other blanks between its tokens. -/
theorem Dressed.spread (dressed : Dressed spare s text decorated) (wellSet : WellSet tokens)
    (finish : s.finish? text = some tokens) :
    Spread s text (plainFrom (mode s.pending) decorated) := by
  induction dressed with
  | done spare s =>
    rw [plainFrom]
    exact .done s
  | unended content plain between =>
    rw [mode_of_isOutside between.isOutside, plainFrom_unended plain]
    exact .done _
  | @kept spare s t text decorated c step rest ih =>
    rw [Scan.finish?_cons, step] at finish
    rw [plainFrom_kept step]
    · exact .kept c step (ih finish)
    · rintro isOutside rfl
      exact rest.comma_stays wellSet isOutside step finish
  | @left spare s t text decorated c blank between step rest ih =>
    rw [Scan.finish?_cons, step] at finish
    have after := isOutside_of_blank between.isOutside blank step
    rw [mode_of_isOutside between.isOutside, ← mode_of_isOutside after]
    exact .left c blank between step (ih finish)
  | @inserted spare s text decorated piece fits between rest ih =>
    have code := mode_of_isOutside between.isOutside
    rw [code] at ih ⊢
    rw [plainFrom_piece fits]
    refine .inserted _ ?_ between (ih finish)
    cases piece with
    | blank c => exact fits
    | block content => rfl
    | line content => rfl
  | @comma s text decorated between closes rest ih =>
    have code := mode_of_isOutside between.isOutside
    -- no second comma can come, so the look ahead sees the bracket itself
    have seen : nextSignificant .code decorated = ink? text :=
      (rest.next between.isOutside).resolve_right fun again => by cases again.1
    rw [code] at ih ⊢
    have goes : plainFrom .code (',' :: decorated) = plainFrom .code decorated := by
      simp [plainFrom, seen, closes]
    rw [goes]
    exact ih finish

theorem Dressed.refl (spare : Bool) (finish : s.finish? text = some tokens) :
    Dressed spare s text text := by
  induction text generalizing spare s with
  | nil => exact .done spare s
  | cons c text ih =>
    rw [Scan.finish?_cons] at finish
    obtain ⟨t, step, finish⟩ := Option.bind_eq_some_iff.mp finish
    exact .kept c step (ih _ finish)

/-- Without decoration nothing is taken out. -/
theorem plainFrom_scanned (wellSet : WellSet tokens) (finish : s.finish? text = some tokens) :
    plainFrom (mode s.pending) text = text := by
  induction text generalizing s with
  | nil => rw [plainFrom]
  | cons c text ih =>
    rw [Scan.finish?_cons] at finish
    obtain ⟨t, step, goesOn⟩ := Option.bind_eq_some_iff.mp finish
    rw [plainFrom_kept step, ih goesOn]
    rintro isOutside rfl
    exact (Dressed.refl false goesOn).comma_stays wellSet isOutside step goesOn

/-! Other blanks, the same tokens -/

/-- Two scans that have come to the same tokens, if not to the same blanks. -/
inductive Alike (next? : Option Char) (s t : Scan) : Prop where
  | same (same : t = s)
  | settled (now : List Token) (one : s.settled? = some now) (other : t.settled? = some now)
      (between : s.Between next?)

theorem Alike.settled?_eq {next? : Option Char} (alike : Alike next? s t) :
    t.settled? = s.settled? := by
  cases alike with
  | same same => rw [same]
  | settled now one other => rw [one, other]

theorem Alike.step {s' : Scan} (alike : Alike (some c) s t) (wellSet : WellSet tokens)
    (step : s.step? c = some s') (finish : s'.finish? text = some tokens) :
    t.step? c = some s' := by
  cases alike with
  | same same => exact same ▸ step
  | settled now one other between =>
    rw [Scan.step?_between between, one, Option.bind_some] at step
    by_cases also : t.Between (some c)
    · rw [Scan.step?_between also, other, Option.bind_some]
      exact step
    · -- the blank between two words or numbers is gone: there are no such two
      obtain ⟨isScalar, mark⟩ := Scan.mark_of_not_between (Scan.isOutside_of_settled? other) also
      obtain ⟨y, value, rfl⟩ := Scan.settled?_of_isScalar isScalar other
      obtain ⟨tokens_eq, goesOn⟩ := Scan.scalar_of_begin? step mark
      obtain ⟨x, behind, part⟩ := Scan.scalar_of_finish? goesOn finish
      rw [tokens_eq] at part
      rw [wellSet.scalars x y _ part value] at behind
      cases behind

theorem Spread.finish?_eq (spread : Spread s text decorated) (wellSet : WellSet tokens)
    (finish : s.finish? text = some tokens) (alike : Alike text.head? s t) :
    t.finish? decorated = some tokens := by
  induction spread generalizing t with
  | done s => exact alike.settled?_eq.trans finish
  | kept c step rest ih =>
    rw [Scan.finish?_cons, step] at finish
    rw [Scan.finish?_cons, alike.step wellSet step finish]
    exact ih finish (.same rfl)
  | @left s s' text spread c blank between step rest ih =>
    obtain ⟨now, settled⟩ := Scan.settled?_of_between
      (show s.Between (c :: text).head? from between) finish
    rw [Scan.finish?_cons, step] at finish
    cases step.symm.trans (Scan.step?_isBlank blank settled)
    exact ih finish (.settled now rfl (alike.settled?_eq.trans settled) trivial)
  | @inserted s text spread c blank between rest ih =>
    obtain ⟨now, settled⟩ := Scan.settled?_of_between between finish
    rw [Scan.finish?_cons, Scan.step?_isBlank blank (alike.settled?_eq.trans settled)]
    exact ih finish (.settled now settled rfl between)

/-- However a JSON text is decorated, it is read as what it is without: nothing but blanks between
its tokens is changed, and so are neither its tokens nor what is made of them. -/
theorem read_decorated {text : String} {outline : Outline}
    (valid : Outline.ofText? text.toList = some outline) :
    plain text.toList = text.toList ∧
    ∀ decorated : String, Dressed true .start text.toList decorated.toList →
      Spread .start text.toList (plain decorated.toList) ∧
      tokens? (plain decorated.toList) = tokens? text.toList ∧
      Outline.ofText? (plain decorated.toList) = some outline ∧
      ∀ path, ProjectFile.ofText? path decorated = ProjectFile.ofText? path text := by
  obtain ⟨forward, scanned, built⟩ := Option.bind_eq_some_iff.mp valid
  rw [Scan.tokens?_eq] at scanned
  obtain ⟨tokens, finish, rfl⟩ := Option.map_eq_some_iff.mp scanned
  have wellSet := wellSet_of_outline built
  have itself : plain text.toList = text.toList := plainFrom_scanned wellSet finish
  refine ⟨itself, fun decorated dressed => ?_⟩
  have spread : Spread .start text.toList (plain decorated.toList) := dressed.spread wellSet finish
  have same : tokens? (plain decorated.toList) = tokens? text.toList := by
    rw [Scan.tokens?_eq, Scan.tokens?_eq, finish, spread.finish?_eq wellSet finish (.same rfl)]
  have outlines : Outline.ofText? (plain decorated.toList) = Outline.ofText? text.toList := by
    rw [Outline.ofText?, Outline.ofText?, same]
  refine ⟨spread, same, outlines.trans valid, fun path => ?_⟩
  rw [ProjectFile.ofText?, ProjectFile.ofText?, outlines, itself]

/-! A string that looks like a comment, and a comment that looks like the end of the array. -/
namespace Sample

def listing : String := "[\x22//\x22,1]"
def commented : String := "[\x22//\x22/*]*/,1,//\n]"

def outline : Outline :=
  .array [.text [.char '/', .char '/'], .number ⟨false, [1], [], none⟩]

theorem dressed_commented : Dressed true .start listing.toList commented.toList :=
  .kept '[' rfl <| .kept '\x22' rfl <| .kept '/' rfl <| .kept '/' rfl <| .kept '\x22' rfl <|
    .inserted (.block [']']) (by decide) (by decide) <| .kept ',' rfl <| .kept '1' rfl <|
    .comma (by decide) rfl <| .inserted (.line []) (by decide) (by decide) <| .kept ']' rfl <|
    .done _ _

end Sample

theorem read_decorated_commented :
    Dressed true .start Sample.listing.toList Sample.commented.toList ∧
    plain Sample.commented.toList = "[\x22//\x22 ,1\n]".toList ∧
    tokens? (plain Sample.commented.toList) = tokens? Sample.listing.toList ∧
    Outline.ofText? (plain Sample.commented.toList) = some Sample.outline := by
  have valid : Outline.ofText? Sample.listing.toList = some Sample.outline := rfl
  obtain ⟨-, reads⟩ := read_decorated valid
  obtain ⟨-, tokens, outline, -⟩ := reads Sample.commented Sample.dressed_commented
  exact ⟨Sample.dressed_commented, by decide +kernel, tokens, outline⟩

end ComponentProjects.Json
