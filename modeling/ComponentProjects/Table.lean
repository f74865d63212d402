/-! Tables from ranked keys to values, kept in ascending order of rank.
Two keys with one rank are the same key, however they are written: writing a value
under a key that is there already keeps the first way the key was written. -/
namespace ComponentProjects

/-- Keys that are told apart and put in order by a word of words. -/
class Ranked (κ : Type u) where
  rank : κ → List (List Nat)

export Ranked (rank)

theorem rank_trichotomy (a b : List (List Nat)) : a < b ∨ a = b ∨ b < a := by
  by_cases ab : a < b
  · exact .inl ab
  · by_cases ba : b < a
    · exact .inr (.inr ba)
    · exact .inr (.inl (List.le_antisymm (List.not_lt.mp ba) (List.not_lt.mp ab)))

instance : Ranked String where
  rank s := [s.toList.map Char.toNat]

/-- Entries in strictly ascending order of rank. -/
def Ascending [Ranked κ] (entries : List (κ × α)) : Prop :=
  entries.Pairwise (fun a b => rank a.1 < rank b.1)

structure Table (κ : Type u) (α : Type v) [Ranked κ] where
  entries : List (κ × α)
  ascending : Ascending entries

namespace Table

variable {κ : Type u} {α : Type v} [Ranked κ]

def empty : Table κ α := ⟨[], .nil⟩

instance : EmptyCollection (Table κ α) := ⟨empty⟩
instance : Inhabited (Table κ α) := ⟨empty⟩

def place (k : κ) (v : α) : List (κ × α) → List (κ × α)
  | [] => [(k, v)]
  | e :: rest =>
    let word := rank k
    let there := rank e.1
    if word < there then (k, v) :: e :: rest
    else if there < word then e :: place k v rest
    else (e.1, v) :: rest

theorem rank_of_mem_place {k : κ} {v : α} {entries : List (κ × α)} {e : κ × α}
    (h : e ∈ place k v entries) : rank e.1 = rank k ∨ ∃ f ∈ entries, rank f.1 = rank e.1 := by
  induction entries with
  | nil => simp_all [place]
  | cons f rest ih =>
    simp only [place] at h
    split at h
    · rcases List.mem_cons.mp h with rfl | h
      · exact .inl rfl
      · exact .inr ⟨e, h, rfl⟩
    · split at h
      · rcases List.mem_cons.mp h with rfl | h
        · exact .inr ⟨e, by simp, rfl⟩
        · rcases ih h with h | ⟨g, hg, eq⟩
          · exact .inl h
          · exact .inr ⟨g, by simp [hg], eq⟩
      · rcases List.mem_cons.mp h with rfl | h
        · exact .inr ⟨f, by simp, rfl⟩
        · exact .inr ⟨e, by simp [h], rfl⟩

theorem ascending_place {k : κ} {v : α} {entries : List (κ × α)} (h : Ascending entries) :
    Ascending (place k v entries) := by
  induction entries with
  | nil => simp [place, Ascending]
  | cons e rest ih =>
    have tail := List.pairwise_cons.mp h
    simp only [place]
    split
    · rename_i below
      refine List.pairwise_cons.mpr ⟨fun f hf => ?_, h⟩
      rcases List.mem_cons.mp hf with rfl | hf
      · exact below
      · exact List.lt_trans below (tail.1 f hf)
    · split
      · rename_i above
        refine List.pairwise_cons.mpr ⟨fun f hf => ?_, ih tail.2⟩
        rcases rank_of_mem_place hf with eq | ⟨g, hg, eq⟩
        · exact eq ▸ above
        · exact eq ▸ tail.1 g hg
      · exact List.pairwise_cons.mpr ⟨fun f hf => tail.1 f hf, tail.2⟩

def get? (t : Table κ α) (k : κ) : Option α :=
  let word := rank k
  (t.entries.find? fun e => rank e.1 = word).map Prod.snd

def contains (t : Table κ α) (k : κ) : Bool := (t.get? k).isSome

/-- Write a value under a key. -/
def insert (t : Table κ α) (k : κ) (v : α) : Table κ α :=
  ⟨place k v t.entries, ascending_place t.ascending⟩

/-- Keep the entries that pass a test. -/
def filter (t : Table κ α) (keep : κ → α → Bool) : Table κ α :=
  ⟨t.entries.filter fun e => keep e.1 e.2, t.ascending.filter _⟩

def erase (t : Table κ α) (k : κ) : Table κ α := t.filter fun l _ => rank l ≠ rank k

def keys (t : Table κ α) : List κ := t.entries.map Prod.fst

def size (t : Table κ α) : Nat := t.entries.length

/-- Write the pairs one after the other. -/
def insertAll (t : Table κ α) (pairs : List (κ × α)) : Table κ α :=
  pairs.foldl (fun t e => t.insert e.1 e.2) t

def ofList (pairs : List (κ × α)) : Table κ α := (∅ : Table κ α).insertAll pairs

@[simp] theorem get?_empty (k : κ) : (∅ : Table κ α).get? k = none := rfl

private theorem find?_place (k l : κ) (v : α) {entries : List (κ × α)} (h : Ascending entries) :
    ((place k v entries).find? fun e => rank e.1 = rank l).map Prod.snd =
      if rank k = rank l then some v
      else (entries.find? fun e => rank e.1 = rank l).map Prod.snd := by
  induction entries with
  | nil => by_cases same : rank k = rank l <;> simp [place, same]
  | cons e rest ih =>
    have tail := List.pairwise_cons.mp h
    simp only [place]
    split
    · by_cases same : rank k = rank l <;> simp [List.find?_cons, same]
    · split
      · rename_i above
        by_cases here : rank e.1 = rank l
        · have apart : rank k ≠ rank l := by
            intro same
            rw [here, same] at above
            exact List.lt_irrefl _ above
          simp [here, apart]
        · simpa [List.find?_cons, here] using ih tail.2
      · rename_i notBelow notAbove
        have same : rank e.1 = rank k := by
          rcases rank_trichotomy (rank k) (rank e.1) with lt | eq | gt
          · exact absurd lt notBelow
          · exact eq.symm
          · exact absurd gt notAbove
        by_cases here : rank k = rank l
        · simp [same, here]
        · simp [same, here]

/-- A key reads what was last written under it; other keys read what they read before. -/
theorem get?_insert (t : Table κ α) (k l : κ) (v : α) :
    (t.insert k v).get? l = if rank k = rank l then some v else t.get? l :=
  find?_place k l v t.ascending

theorem get?_erase (t : Table κ α) (k l : κ) :
    (t.erase k).get? l = if rank k = rank l then none else t.get? l := by
  simp only [get?, erase, filter, List.find?_filter]
  by_cases same : rank k = rank l
  · simp only [same, if_true, Option.map_eq_none_iff, List.find?_eq_none]
    simp
  · simp only [if_neg same]
    congr 2
    funext e
    by_cases here : rank e.1 = rank l
    · simp [here, Ne.symm same]
    · simp [here]

/-- Keys of one rank read alike. -/
theorem get?_congr (t : Table κ α) {k l : κ} (same : rank k = rank l) : t.get? k = t.get? l := by
  simp only [get?, same]

end Table

end ComponentProjects
