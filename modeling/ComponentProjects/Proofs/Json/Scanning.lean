import Mathlib.Data.List.Infix
import ComponentProjects.Json.Outline
import ComponentProjects.Text.Blank

/-! Where a scan stands between two tokens. There it goes on from the tokens it has, once the last
one is settled. The tokens of a value are such that no word or number stands behind another and no
bracket closes behind a comma. -/
namespace ComponentProjects.Json

/-- A word or a number. Only these end where the next character does not go on with them. -/
def Token.isScalar : Token → Bool
  | .null | .bool _ | .number _ => true
  | _ => false

def Token.closes : Token → Bool
  | .closeObject | .closeArray => true
  | _ => false

def Pending.isScalar : Pending → Bool
  | .word _ | .numeral _ => true
  | _ => false

/-- Outside of strings. -/
def Pending.isOutside : Pending → Bool
  | .none | .word _ | .numeral _ => true
  | _ => false

theorem Pending.isOutside_of_isScalar {p : Pending} (isScalar : p.isScalar = true) :
    p.isOutside = true := by
  cases p <;> first | rfl | cases isScalar

namespace Scan

variable {s t : Scan} {c : Char} {text : List Char} {now tokens : List Token}

/-- The tokens after the rest of a text, latest first. -/
def finish? (s : Scan) (text : List Char) : Option (List Token) :=
  (text.foldlM step? s).bind settled?

theorem finish?_cons (s : Scan) (c : Char) (text : List Char) :
    s.finish? (c :: text) = (s.step? c).bind (finish? · text) := by
  simp only [finish?, List.foldlM_cons, Option.bind_eq_bind, Option.bind_assoc]

theorem tokens?_eq (text : List Char) : tokens? text = (start.finish? text).map List.reverse := by
  simp only [tokens?, finish?, Option.bind_eq_bind, Option.pure_def, Option.map_bind]
  exact congrArg _ (funext fun s => (Option.map_eq_bind ..).symm)

/-! Characters -/

/-- What stands for itself between strings: a printed character, and none that opens a comment. -/
structure Ink (c : Char) : Prop where
  above : 32 < c.toNat
  below : c.toNat < 127
  slash : c ≠ '/'

theorem isBlank_iff : isBlank c = true ↔ c = ' ' ∨ c = '\n' ∨ c = '\t' ∨ c = '\r' := by
  simp [isBlank, or_assoc]

theorem text_isBlank (blank : isBlank c = true) : Text.isBlank c = true := by
  rcases isBlank_iff.mp blank with rfl | rfl | rfl | rfl <;> decide

theorem Ink.not_text_isBlank (ink : Ink c) : Text.isBlank c = false := by
  have above := ink.above
  have below := ink.below
  simp only [Text.isBlank, Text.blankRanges, List.any_cons, List.any_nil, Bool.or_false,
    Bool.or_eq_false_iff, Bool.and_eq_false_iff, decide_eq_false_iff_not]
  omega

theorem Ink.not_isBlank (ink : Ink c) : isBlank c = false := by
  refine Bool.eq_false_iff.mpr fun blank => ?_
  have also := text_isBlank blank
  rw [ink.not_text_isBlank] at also
  cases also

theorem ink_of_isAlpha (letter : c.isAlpha = true) : Ink c := by
  have slash : c ≠ '/' := by
    rintro rfl
    cases letter
  rcases Bool.or_eq_true_iff.mp letter with upper | lower
  · obtain ⟨above, below⟩ := of_decide_eq_true upper
    have above : 65 ≤ c.toNat := UInt32.le_iff_toNat_le.mp above
    have below : c.toNat ≤ 90 := UInt32.le_iff_toNat_le.mp below
    exact ⟨by omega, by omega, slash⟩
  · obtain ⟨above, below⟩ := Bool.and_eq_true_iff.mp lower
    have above : 97 ≤ c.toNat := UInt32.le_iff_toNat_le.mp (of_decide_eq_true above)
    have below : c.toNat ≤ 122 := UInt32.le_iff_toNat_le.mp (of_decide_eq_true below)
    exact ⟨by omega, by omega, slash⟩

theorem ink_of_mem (listed : c ∈ ".-+eE\x22\x7b\x7d[]:,".toList) : Ink c := by
  have printed : (".-+eE\x22\x7b\x7d[]:,".toList.all fun d =>
      32 < d.toNat && d.toNat < 127 && d ≠ '/') = true := by decide
  have own := List.all_eq_true.mp printed c listed
  simp only [Bool.and_eq_true, decide_eq_true_eq] at own
  exact ⟨own.1.1, own.1.2, own.2⟩

theorem ink_of_isNumeralMark (mark : isNumeralMark c = true) : Ink c := by
  by_cases digit : c.isDigit = true
  · have slash : c ≠ '/' := by
      rintro rfl
      cases digit
    obtain ⟨above, below⟩ := Char.isDigit_iff_toNat.mp digit
    exact ⟨Nat.lt_of_lt_of_le (by decide) above, Nat.lt_of_le_of_lt below (by decide), slash⟩
  · simp only [isNumeralMark, digit, Bool.false_or, Bool.or_eq_true, decide_eq_true_eq] at mark
    refine ink_of_mem ?_
    rcases mark with (((rfl | rfl) | rfl) | rfl) | rfl <;> decide

theorem ink_of_punctuation? {token : Token} (mark : punctuation? c = some token) : Ink c := by
  refine ink_of_mem ?_
  unfold punctuation? at mark
  split_ifs at mark <;> subst c <;> decide

/-! One step -/

/-- What a character can be that comes where no token is under way. -/
inductive Begins (tokens : List Token) (c : Char) : Scan → Prop where
  | blank (blank : isBlank c = true) : Begins tokens c ⟨tokens, .none⟩
  | quote (quote : c = '\x22') : Begins tokens c ⟨tokens, .text []⟩
  | scalar (pending : Pending) (isScalar : pending.isScalar = true)
      (mark : c.isAlpha = true ∨ isNumeralMark c = true) : Begins tokens c ⟨tokens, pending⟩
  | mark (token : Token) (mark : punctuation? c = some token) :
    Begins tokens c ⟨token :: tokens, .none⟩

theorem begins_of_begin? (begun : begin? tokens c = some t) : Begins tokens c t := by
  unfold begin? at begun
  split at begun
  · rename_i blank
    cases begun
    exact .blank blank
  · split at begun
    · rename_i quote
      cases begun
      exact .quote quote
    · split at begun
      · rename_i sign
        cases begun
        refine .scalar _ rfl (.inr ?_)
        rcases sign with rfl | digit <;> simp [isNumeralMark, *]
      · split at begun
        · rename_i letter
          cases begun
          exact .scalar _ rfl (.inl letter)
        · obtain ⟨token, mark, rfl⟩ := Option.map_eq_some_iff.mp begun
          exact .mark token mark

/-- No token is under way that the next character goes on with. -/
def Between (s : Scan) (next? : Option Char) : Prop :=
  match s.pending with
  | .none => True
  | .word _ => next?.any Char.isAlpha = false
  | .numeral _ => next?.any isNumeralMark = false
  | _ => False

instance (next? : Option Char) : (s : Scan) → Decidable (s.Between next?)
  | ⟨_, .none⟩ => isTrue trivial
  | ⟨_, .word _⟩ => inferInstanceAs (Decidable (next?.any Char.isAlpha = false))
  | ⟨_, .numeral _⟩ => inferInstanceAs (Decidable (next?.any isNumeralMark = false))
  | ⟨_, .text _⟩ | ⟨_, .escape _⟩ | ⟨_, .hex _ _⟩ => isFalse id

theorem Between.isOutside {next? : Option Char} (between : s.Between next?) :
    s.pending.isOutside = true := by
  unfold Between at between
  split at between <;> simp_all [Pending.isOutside]

theorem step?_between (between : s.Between (some c)) :
    s.step? c = s.settled?.bind (begin? · c) := by
  obtain ⟨tokens, pending⟩ := s
  cases pending with
  | none => rfl
  | word letters =>
    have other : c.isAlpha = false := between
    simp [step?, other]
  | numeral marks =>
    have other : isNumeralMark c = false := between
    simp [step?, other]
  | text _ | escape _ | hex _ _ => cases between

/-- Outside of strings, a character comes between tokens or goes on with a word or number. -/
theorem between_or_scalar (isOutside : s.pending.isOutside = true) (step : s.step? c = some t) :
    s.Between (some c) ∨ (s.pending.isScalar = true ∧ t.tokens = s.tokens ∧
      t.pending.isScalar = true ∧ (c.isAlpha = true ∨ isNumeralMark c = true)) := by
  obtain ⟨tokens, pending⟩ := s
  cases pending with
  | none => exact .inl trivial
  | word letters =>
    by_cases letter : c.isAlpha = true
    · simp only [step?, letter, if_true] at step
      cases step
      exact .inr ⟨rfl, rfl, rfl, .inl letter⟩
    · exact .inl (by simpa [Between] using letter)
  | numeral marks =>
    by_cases mark : isNumeralMark c = true
    · simp only [step?, mark, if_true] at step
      cases step
      exact .inr ⟨rfl, rfl, rfl, .inr mark⟩
    · exact .inl (by simpa [Between] using mark)
  | text _ | escape _ | hex _ _ => cases isOutside

/-- A character that goes on with a word or number would also begin one. -/
theorem mark_of_not_between (isOutside : s.pending.isOutside = true) (amid : ¬ s.Between (some c)) :
    s.pending.isScalar = true ∧ (c.isAlpha = true ∨ isNumeralMark c = true) := by
  obtain ⟨tokens, pending⟩ := s
  cases pending with
  | none => exact absurd trivial amid
  | word letters => exact ⟨rfl, .inl (by simpa [Between] using amid)⟩
  | numeral marks => exact ⟨rfl, .inr (by simpa [Between] using amid)⟩
  | text _ | escape _ | hex _ _ => cases isOutside

theorem between_of_isBlank (isOutside : s.pending.isOutside = true) (blank : isBlank c = true) :
    s.Between (some c) := by
  refine Classical.not_not.mp fun amid => ?_
  obtain ⟨-, mark⟩ := mark_of_not_between isOutside amid
  have ink : Ink c := mark.elim ink_of_isAlpha ink_of_isNumeralMark
  rw [ink.not_isBlank] at blank
  cases blank

theorem scalar_of_begin? (begun : begin? tokens c = some t)
    (mark : c.isAlpha = true ∨ isNumeralMark c = true) :
    t.tokens = tokens ∧ t.pending.isScalar = true := by
  have ink : Ink c := mark.elim ink_of_isAlpha ink_of_isNumeralMark
  cases begins_of_begin? begun with
  | blank blank =>
    rw [ink.not_isBlank] at blank
    cases blank
  | quote quote =>
    subst quote
    rcases mark with letter | mark
    · cases letter
    · cases mark
  | scalar pending isScalar => exact ⟨rfl, isScalar⟩
  | mark token punctuation =>
    unfold punctuation? at punctuation
    split_ifs at punctuation <;> subst c <;> rcases mark with letter | mark <;>
      first | cases letter | cases mark

theorem begins_cases (begins : Begins tokens c t) : (isBlank c = true ∨ Ink c) ∧
    if c = '\x22' then t.pending = .text [] else t.pending.isOutside = true := by
  cases begins with
  | blank blank =>
    refine ⟨.inl blank, ?_⟩
    split
    · subst c
      cases blank
    · rfl
  | quote quote =>
    rw [if_pos quote]
    exact ⟨.inr (ink_of_mem (by rw [quote]; decide)), rfl⟩
  | scalar pending isScalar mark =>
    refine ⟨.inr (mark.elim ink_of_isAlpha ink_of_isNumeralMark), ?_⟩
    split
    · subst c
      rcases mark with letter | mark
      · cases letter
      · cases mark
    · exact Pending.isOutside_of_isScalar isScalar
  | mark token mark =>
    refine ⟨.inr (ink_of_punctuation? mark), ?_⟩
    split
    · subst c
      cases mark
    · rfl

/-- Outside of strings only blanks and ink are scanned, and a quote is what leads into a string. -/
theorem outside_cases (isOutside : s.pending.isOutside = true) (step : s.step? c = some t) :
    (isBlank c = true ∨ Ink c) ∧
      if c = '\x22' then t.pending = .text [] else t.pending.isOutside = true := by
  rcases between_or_scalar isOutside step with between | ⟨-, -, isScalar, mark⟩
  · rw [step?_between between] at step
    obtain ⟨now, -, begun⟩ := Option.bind_eq_some_iff.mp step
    exact begins_cases (begins_of_begin? begun)
  · exact begins_cases (.scalar t.pending isScalar mark)

theorem settled?_cases (settled : s.settled? = some now) :
    (s.pending = .none ∧ now = s.tokens) ∨
      (s.pending.isScalar = true ∧ ∃ x : Token, x.isScalar = true ∧ now = x :: s.tokens) := by
  obtain ⟨tokens, pending⟩ := s
  cases pending with
  | none =>
    cases settled
    exact .inl ⟨rfl, rfl⟩
  | word letters =>
    obtain ⟨x, word, rfl⟩ := Option.map_eq_some_iff.mp settled
    refine .inr ⟨rfl, x, ?_, rfl⟩
    unfold wordToken? at word
    split at word
    · cases word
      rfl
    · split at word
      · cases word
        rfl
      · split at word <;> cases word
        rfl
  | numeral marks =>
    obtain ⟨n, -, rfl⟩ := Option.map_eq_some_iff.mp settled
    exact .inr ⟨rfl, .number n, rfl, rfl⟩
  | text _ | escape _ | hex _ _ => cases settled

theorem settled?_of_isScalar (isScalar : s.pending.isScalar = true)
    (settled : s.settled? = some now) : ∃ x : Token, x.isScalar = true ∧ now = x :: s.tokens := by
  rcases settled?_cases settled with ⟨none, -⟩ | ⟨-, found⟩
  · rw [none] at isScalar
    cases isScalar
  · exact found

theorem isOutside_of_settled? (settled : s.settled? = some now) : s.pending.isOutside = true := by
  rcases settled?_cases settled with ⟨none, -⟩ | ⟨isScalar, -⟩
  · rw [none]
    rfl
  · exact Pending.isOutside_of_isScalar isScalar

theorem step?_isBlank (blank : isBlank c = true) (settled : s.settled? = some now) :
    s.step? c = some ⟨now, .none⟩ := by
  have between := between_of_isBlank (isOutside_of_settled? settled) blank
  simp [step?_between between, settled, begin?, blank]

theorem settled?_of_between (between : s.Between text.head?)
    (finish : s.finish? text = some tokens) : ∃ now, s.settled? = some now := by
  cases text with
  | nil => exact ⟨tokens, finish⟩
  | cons c text =>
    rw [finish?_cons, step?_between between] at finish
    obtain ⟨t, step, -⟩ := Option.bind_eq_some_iff.mp finish
    obtain ⟨now, settled, -⟩ := Option.bind_eq_some_iff.mp step
    exact ⟨now, settled⟩

theorem suffix_of_settled? (settled : s.settled? = some now) : s.tokens <:+ now := by
  rcases settled?_cases settled with ⟨-, rfl⟩ | ⟨-, x, -, rfl⟩
  · exact List.suffix_refl _
  · exact List.suffix_cons _ _

theorem suffix_of_begins (begins : Begins tokens c t) : tokens <:+ t.tokens := by
  cases begins with
  | mark token => exact List.suffix_cons _ _
  | blank | quote | scalar => exact List.suffix_refl _

theorem suffix_of_step? (step : s.step? c = some t) : s.tokens <:+ t.tokens := by
  by_cases isOutside : s.pending.isOutside = true
  · rcases between_or_scalar isOutside step with between | ⟨-, same, -⟩
    · rw [step?_between between] at step
      obtain ⟨now, settled, begun⟩ := Option.bind_eq_some_iff.mp step
      exact (suffix_of_settled? settled).trans (suffix_of_begins (begins_of_begin? begun))
    · exact same ▸ List.suffix_refl _
  · obtain ⟨tokens, pending⟩ := s
    cases pending with
    | text parts =>
      simp only [step?] at step
      split_ifs at step <;> cases step
      · exact List.suffix_cons _ _
      all_goals exact List.suffix_refl _
    | escape parts =>
      simp only [step?] at step
      split_ifs at step
      · cases step
        exact List.suffix_refl _
      · obtain ⟨e, -, rfl⟩ := Option.map_eq_some_iff.mp step
        exact List.suffix_refl _
    | hex parts digits =>
      obtain ⟨d, -, step⟩ := Option.bind_eq_some_iff.mp step
      dsimp only at step
      split_ifs at step <;> cases step <;> exact List.suffix_refl _
    | none | word _ | numeral _ => exact absurd rfl isOutside

theorem suffix_of_finish? (finish : s.finish? text = some tokens) : s.tokens <:+ tokens := by
  induction text generalizing s with
  | nil => exact suffix_of_settled? finish
  | cons c text ih =>
    rw [finish?_cons] at finish
    obtain ⟨t, step, finish⟩ := Option.bind_eq_some_iff.mp finish
    exact (suffix_of_step? step).trans (ih finish)

/-- A word or number that is under way is a token in the end. -/
theorem scalar_of_finish? (isScalar : s.pending.isScalar = true)
    (finish : s.finish? text = some tokens) :
    ∃ x : Token, x.isScalar = true ∧ x :: s.tokens <:+ tokens := by
  induction text generalizing s with
  | nil =>
    obtain ⟨x, scalar, rfl⟩ := settled?_of_isScalar isScalar finish
    exact ⟨x, scalar, List.suffix_refl _⟩
  | cons c text ih =>
    rw [finish?_cons] at finish
    obtain ⟨t, step, finish⟩ := Option.bind_eq_some_iff.mp finish
    have isOutside := Pending.isOutside_of_isScalar isScalar
    rcases between_or_scalar isOutside step with between | ⟨-, same, goesOn, -⟩
    · rw [step?_between between] at step
      obtain ⟨now, settled, begun⟩ := Option.bind_eq_some_iff.mp step
      obtain ⟨x, scalar, rfl⟩ := settled?_of_isScalar isScalar settled
      have grown := suffix_of_begins (begins_of_begin? begun)
      exact ⟨x, scalar, grown.trans (suffix_of_finish? finish)⟩
    · rw [← same]
      exact ih goesOn finish

end Scan

/-! Tokens of a value -/

/-- Latest first: no word or number behind another, and no bracket that closes behind a comma. -/
structure WellSet (tokens : List Token) : Prop where
  scalars : ∀ x y rest, x :: y :: rest <:+ tokens → y.isScalar = true → x.isScalar = false
  commas : ∀ x rest, x :: .comma :: rest <:+ tokens → x.closes = false

namespace Build

variable {b n : Build} {x y : Token}

/-- Behind a word or number there is a whole value. -/
theorem expect_of_scalar (scalar : y.isScalar = true) (step : b.step? y = some n) :
    n.expect = .separator ∨ ∃ root, n.expect = .nothing root := by
  have delivered (frames : List Frame) (value : Outline) :
      (deliver frames value).expect = .separator ∨
        ∃ root, (deliver frames value).expect = .nothing root := by
    cases frames with
    | nil => exact .inr ⟨value, rfl⟩
    | cons frame rest => cases frame <;> exact .inl rfl
  obtain ⟨frames, expect⟩ := b
  cases expect <;> cases y <;> cases scalar <;> cases step <;> exact delivered _ _

theorem not_scalar_behind (scalar : y.isScalar = true) (first : b.step? y = some n)
    (then_ : (n.step? x).isSome = true) : x.isScalar = false := by
  obtain ⟨frames, expect⟩ := n
  rcases expect_of_scalar scalar first with separator | ⟨root, nothing⟩
  · cases separator
    cases x <;> first | rfl | cases then_
  · cases nothing
    cases then_

theorem not_closes_behind (first : b.step? .comma = some n) (then_ : (n.step? x).isSome = true) :
    x.closes = false := by
  obtain ⟨frames, expect⟩ := b
  cases expect with
  | separator =>
    cases frames with
    | nil => cases first
    | cons frame rest =>
      cases frame <;> cases first <;> cases x <;> first | rfl | cases then_
  | _ => cases first

end Build

theorem wellSet_of_outline {tokens : List Token} {outline : Outline}
    (built : Outline.ofTokens? tokens.reverse = some outline) : WellSet tokens := by
  have adjoin {x y : Token} {rest : List Token} (part : x :: y :: rest <:+ tokens) :
      ∃ b n, Build.step? b y = some n ∧ (n.step? x).isSome = true := by
    obtain ⟨front, rfl⟩ := part
    obtain ⟨whole, folded, -⟩ := Option.bind_eq_some_iff.mp built
    simp only [List.reverse_append, List.reverse_cons, List.append_assoc, List.foldlM_append,
      List.cons_append, List.nil_append, List.foldlM_cons] at folded
    obtain ⟨b, -, folded⟩ := Option.bind_eq_some_iff.mp folded
    obtain ⟨n, first, folded⟩ := Option.bind_eq_some_iff.mp folded
    obtain ⟨k, second, -⟩ := Option.bind_eq_some_iff.mp folded
    exact ⟨b, n, first, Option.isSome_of_eq_some second⟩
  refine ⟨fun x y rest part scalar => ?_, fun x rest part => ?_⟩
  · obtain ⟨b, n, first, then_⟩ := adjoin part
    exact Build.not_scalar_behind scalar first then_
  · obtain ⟨b, n, first, then_⟩ := adjoin part
    exact Build.not_closes_behind first then_

end ComponentProjects.Json
