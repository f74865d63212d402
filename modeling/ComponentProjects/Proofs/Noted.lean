import ComponentProjects.Noted

/-! The kinds of notes that a piece of work can leave. A search leaves none that its trials do not
leave, so what is known of every trial is known of the whole search. -/
namespace ComponentProjects.Noted

variable {kind other : Note → Prop} {work : Noted α}

/-- Every note is of one kind. -/
def Only (kind : Note → Prop) (work : Noted α) : Prop := ∀ note ∈ work.notes, kind note

theorem only_pure (a : α) : (pure a : Noted α).Only kind := fun _ member => by cases member

theorem Only.bind (only : work.Only kind) {f : α → Noted β} (then_only : (f work.value).Only kind) :
    (work >>= f).Only kind := by
  intro note member
  rcases List.mem_append.mp member with first | later
  · exact only note first
  · exact then_only note later

theorem Only.imp (only : work.Only kind) (step : ∀ note, kind note → other note) :
    work.Only other := fun note member => step note (only note member)

theorem only_firstSome {search : α → Noted (Option β)} (only : ∀ a, (search a).Only kind)
    (as : List α) : (firstSome search as).Only kind := by
  induction as with
  | nil => exact only_pure _
  | cons a rest ih =>
    refine (only a).bind ?_
    split
    · exact only_pure _
    · exact ih

theorem only_firstUpward {search : Path → Noted (Option β)} (only : ∀ dir, (search dir).Only kind)
    (dir : Path) : (firstUpward search dir).Only kind := by
  rw [firstUpward_eq]
  exact only_firstSome only _

/-- The paths whose contents were asked for, in order. -/
def readings (work : Noted α) : List Path :=
  work.notes.filterMap fun
    | .asked (.contents path) => some path
    | _ => none

/-- Whoever only looks where files are reads none. -/
theorem readings_of_only (only : work.Only fun note => ∃ path, note = .asked (.isFile path)) :
    work.readings = [] := by
  refine List.filterMap_eq_nil_iff.mpr fun note member => ?_
  obtain ⟨path, rfl⟩ := only note member
  rfl

end ComponentProjects.Noted
