/-! Endings of texts. -/
namespace ComponentProjects.Text

/-- The text before an ending, when the text has it. -/
def beforeEnding? (ending text : List Char) : Option (List Char) :=
  if ending.isSuffixOf text then some (text.take (text.length - ending.length)) else none

theorem beforeEnding?_eq_some_iff {ending text stem : List Char} :
    beforeEnding? ending text = some stem ↔ text = stem ++ ending := by
  unfold beforeEnding?
  constructor
  · intro h
    split at h
    · rename_i suffix
      obtain ⟨front, rfl⟩ := List.isSuffixOf_iff_suffix.mp suffix
      simpa [eq_comm] using h
    · contradiction
  · rintro rfl
    rw [if_pos (List.isSuffixOf_iff_suffix.mpr (List.suffix_append _ _))]
    simp

end ComponentProjects.Text
