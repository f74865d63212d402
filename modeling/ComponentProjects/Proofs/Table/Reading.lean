import Mathlib.Data.List.Perm.Subperm
import ComponentProjects.Options

/-! What tables read when some of their entries are left out, or when they are laid over each other,
how many keys a table can answer for, and which keys it lists. -/
namespace ComponentProjects

theorem rank_string_inj {k l : String} : rank k = rank l ↔ k = l := by
  constructor
  · intro same
    have chars : k.toList = l.toList :=
      (List.map_inj_right fun _ _ => Char.toNat_inj.mp).mp (List.cons.inj same).1
    exact String.toList_inj.mp chars
  · rintro rfl
    rfl

namespace Table

variable {κ : Type} {α : Type} [Ranked κ] {t : Table κ α} {k l : κ} {v : α}

theorem eq_of_mem_of_rank {entries : List (κ × α)} (ascending : Ascending entries)
    {e f : κ × α} (one : e ∈ entries) (other : f ∈ entries) (same : rank e.1 = rank f.1) :
    e = f := by
  induction entries with
  | nil => cases one
  | cons g rest ih =>
    obtain ⟨below, ascending⟩ := List.pairwise_cons.mp ascending
    have apart : ∀ h ∈ rest, rank g.1 ≠ rank h.1 := by
      intro h member equal
      have less := below h member
      rw [equal] at less
      exact List.lt_irrefl _ less
    rcases List.mem_cons.mp one with rfl | early <;> rcases List.mem_cons.mp other with rfl | late
    · rfl
    · exact absurd same (apart f late)
    · exact absurd same (apart e early).symm
    · exact ih ascending early late

theorem get?_eq_some_iff : t.get? k = some v ↔ ∃ l, (l, v) ∈ t.entries ∧ rank l = rank k := by
  simp only [get?, Option.map_eq_some_iff]
  constructor
  · rintro ⟨e, found, rfl⟩
    have same : rank e.1 = rank k := by simpa using List.find?_some found
    exact ⟨e.1, List.mem_of_find?_eq_some found, same⟩
  · rintro ⟨l, member, same⟩
    have some : (t.entries.find? fun e => rank e.1 = rank k).isSome = true := by
      rw [List.find?_isSome]
      exact ⟨(l, v), member, decide_eq_true same⟩
    obtain ⟨e, found⟩ := Option.isSome_iff_exists.mp some
    have also : rank e.1 = rank k := by simpa using List.find?_some found
    have whole := eq_of_mem_of_rank t.ascending (List.mem_of_find?_eq_some found) member
      (also.trans same.symm)
    exact ⟨e, found, congrArg Prod.snd whole⟩

theorem get?_of_filter {keep : κ → α → Bool} (kept : (t.filter keep).get? k = some v) :
    t.get? k = some v := by
  obtain ⟨l, member, same⟩ := get?_eq_some_iff.mp kept
  exact get?_eq_some_iff.mpr ⟨l, List.mem_of_mem_filter member, same⟩

theorem length_place_of_apart {entries : List (κ × α)}
    (apart : ∀ e ∈ entries, rank e.1 ≠ rank k) :
    (place k v entries).length = entries.length + 1 := by
  induction entries with
  | nil => rfl
  | cons e rest ih =>
    have later := ih fun f member => apart f (.tail _ member)
    simp only [place]
    split
    · rfl
    · split
      · rw [List.length_cons, List.length_cons, later]
      · rename_i notBelow notAbove
        rcases rank_trichotomy (rank k) (rank e.1) with lt | eq | gt
        · exact absurd lt notBelow
        · exact absurd eq.symm (apart e List.mem_cons_self)
        · exact absurd gt notAbove

theorem length_filter_of_mem {entries : List (κ × α)} (ascending : Ascending entries) {e : κ × α}
    (member : e ∈ entries) (same : rank e.1 = rank k) :
    (entries.filter fun e => rank e.1 ≠ rank k).length + 1 = entries.length := by
  induction entries with
  | nil => cases member
  | cons f rest ih =>
    obtain ⟨below, tail⟩ := List.pairwise_cons.mp ascending
    by_cases here : rank f.1 = rank k
    · -- no entry behind this one ranks like it
      have others : rest.filter (fun e => rank e.1 ≠ rank k) = rest := by
        refine List.filter_eq_self.mpr fun g later => decide_eq_true fun equal => ?_
        have less := below g later
        rw [here, equal] at less
        exact List.lt_irrefl _ less
      rw [List.filter_cons_of_neg (by simpa using here), others, List.length_cons]
    · rcases List.mem_cons.mp member with rfl | later
      · exact absurd same here
      · rw [List.filter_cons_of_pos (by simpa using here), List.length_cons, List.length_cons,
          ih tail later]

theorem size_insert_of_missing (missing : t.get? k = none) (v : α) :
    (t.insert k v).size = t.size + 1 := by
  refine length_place_of_apart fun e member same => ?_
  have held : t.get? k = some e.2 := get?_eq_some_iff.mpr ⟨e.1, member, same⟩
  rw [missing] at held
  cases held

theorem size_erase_of_held (held : t.get? k = some v) : (t.erase k).size + 1 = t.size := by
  obtain ⟨l, member, same⟩ := get?_eq_some_iff.mp held
  exact length_filter_of_mem t.ascending member same

/-- Different keys that a table answers for are not more than it has entries. -/
theorem length_le_size {keys : List κ} (apart : keys.Pairwise fun k l => rank k ≠ rank l)
    (held : ∀ k ∈ keys, (t.get? k).isSome = true) : keys.length ≤ t.size := by
  have among : keys.map rank ⊆ t.entries.map fun e => rank e.1 := by
    intro r member
    obtain ⟨k, key, rfl⟩ := List.mem_map.mp member
    obtain ⟨v, found⟩ := Option.isSome_iff_exists.mp (held k key)
    obtain ⟨l, entry, same⟩ := get?_eq_some_iff.mp found
    exact List.mem_map.mpr ⟨(l, v), entry, same⟩
  have nodup : (keys.map rank).Nodup := List.pairwise_map.mpr apart
  have fits := (nodup.subperm among).length_le
  rwa [List.length_map, List.length_map] at fits

theorem get?_insertAll {pairs : List (κ × α)} (ascending : Ascending pairs) (t : Table κ α)
    (k : κ) :
    (t.insertAll pairs).get? k =
      ((pairs.find? fun e => rank e.1 = rank k).map Prod.snd).or (t.get? k) := by
  induction pairs generalizing t with
  | nil => rfl
  | cons e rest ih =>
    obtain ⟨below, ascending⟩ := List.pairwise_cons.mp ascending
    have step : (t.insertAll (e :: rest)).get? k = ((t.insert e.1 e.2).insertAll rest).get? k := rfl
    rw [step, ih ascending, get?_insert, List.find?_cons]
    by_cases here : rank e.1 = rank k
    · -- the keys that follow rank higher, so none of them is this one again
      have last : (rest.find? fun f => rank f.1 = rank k) = none := by
        rw [List.find?_eq_none]
        intro f member again
        have less := below f member
        rw [here, ← of_decide_eq_true again] at less
        exact List.lt_irrefl _ less
      simp [here, last]
    · simp [here]

/-! Keys -/

theorem filter_place (keep : κ → Bool) (dropped : keep k = false) (v : α) (entries : List (κ × α)) :
    ((place k v entries).map Prod.fst).filter keep = (entries.map Prod.fst).filter keep := by
  induction entries with
  | nil => simp [place, dropped]
  | cons e rest ih =>
    simp only [place]
    split
    · simp [dropped]
    · split
      · simp only [List.map_cons, List.filter_cons, ih]
      · rfl

/-- Among the keys that pass a test, nothing comes of writing under one that does not. -/
theorem filter_keys_insert (keep : κ → Bool) (dropped : keep k = false) (v : α) :
    (t.insert k v).keys.filter keep = t.keys.filter keep :=
  filter_place keep dropped v t.entries

theorem filter_keys_erase (keep : κ → Bool) (dropped : ∀ l, rank l = rank k → keep l = false) :
    (t.erase k).keys.filter keep = t.keys.filter keep := by
  simp only [keys, erase, filter, List.filter_map, List.filter_filter]
  congr 1
  apply List.filter_congr
  intro e _
  by_cases same : rank e.1 = rank k
  · simp [same, dropped e.1 same]
  · simp [same]

theorem mem_of_mem_place {entries : List (κ × α)} {e : κ × α} (placed : e ∈ place k v entries) :
    e.1 = k ∨ e.1 ∈ entries.map Prod.fst := by
  induction entries with
  | nil => exact .inl (congrArg Prod.fst (List.mem_singleton.mp placed))
  | cons f rest ih =>
    simp only [place] at placed
    split at placed
    · rcases List.mem_cons.mp placed with rfl | later
      · exact .inl rfl
      · exact .inr (List.mem_map_of_mem later)
    · split at placed
      · rcases List.mem_cons.mp placed with rfl | later
        · exact .inr List.mem_cons_self
        · exact (ih later).imp_right (.tail _)
      · rcases List.mem_cons.mp placed with rfl | later
        · exact .inr List.mem_cons_self
        · exact .inr (List.mem_map_of_mem (.tail _ later))

theorem contains_iff : t.contains k = true ↔ ∃ l ∈ t.keys, rank l = rank k := by
  rw [contains, Option.isSome_iff_exists]
  constructor
  · rintro ⟨v, held⟩
    obtain ⟨l, entry, same⟩ := get?_eq_some_iff.mp held
    exact ⟨l, List.mem_map_of_mem entry, same⟩
  · rintro ⟨l, key, same⟩
    obtain ⟨⟨_, v⟩, entry, rfl⟩ := List.mem_map.mp key
    exact ⟨v, get?_eq_some_iff.mpr ⟨_, entry, same⟩⟩

theorem contains_insert :
    (t.insert k v).contains l = true ↔ rank k = rank l ∨ t.contains l = true := by
  rw [contains, get?_insert]
  split <;> simp_all [contains]

/-- A table that pairs were written to has their keys, each in one of its spellings, and those that
it had. -/
theorem mem_keys_insertAll {pairs : List (κ × α)} (member : l ∈ (t.insertAll pairs).keys) :
    l ∈ t.keys ∨ l ∈ pairs.map Prod.fst := by
  induction pairs generalizing t with
  | nil => exact .inl member
  | cons e rest ih =>
    rcases ih (t := t.insert e.1 e.2) member with early | late
    · obtain ⟨f, placed, rfl⟩ := List.mem_map.mp early
      rcases mem_of_mem_place placed with same | held
      · exact .inr (same ▸ List.mem_cons_self)
      · exact .inl held
    · exact .inr (.tail _ late)

theorem contains_insertAll {pairs : List (κ × α)} :
    (t.insertAll pairs).contains l = true ↔
      t.contains l = true ∨ ∃ e ∈ pairs, rank e.1 = rank l := by
  induction pairs generalizing t with
  | nil => simp [insertAll]
  | cons e rest ih =>
    have step : (t.insertAll (e :: rest)).contains l =
        ((t.insert e.1 e.2).insertAll rest).contains l := rfl
    rw [step, ih, contains_insert]
    simp only [List.exists_mem_cons_iff]
    tauto

/-- Where each key has one spelling, the table of a list has just the list's keys. -/
theorem mem_keys_ofList {listed : List κ}
    (alike : ∀ k ∈ listed, ∀ l ∈ listed, rank k = rank l → k = l) :
    k ∈ (ofList (listed.map fun k => (k, ()))).keys ↔ k ∈ listed := by
  have among {l : κ} (key : l ∈ (ofList (listed.map fun k => (k, ()))).keys) : l ∈ listed := by
    rcases mem_keys_insertAll key with none | pair
    · cases none
    · simpa using pair
  constructor
  · exact among
  · intro member
    have held : (ofList (listed.map fun k => (k, ()))).contains k = true :=
      contains_insertAll.mpr (.inr ⟨(k, ()), List.mem_map_of_mem member, rfl⟩)
    obtain ⟨l, key, same⟩ := contains_iff.mp held
    cases alike l (among key) k member same
    exact key

end Table

namespace Options

theorem get?_merge (options layer : Options) (key : String) :
    (options.merge layer).get? key = (layer.get? key).or (options.get? key) :=
  Table.get?_insertAll layer.ascending options key

/-- Of an option in several layers the last one counts. -/
theorem get?_layered (layers : List Options) (key : String) :
    (layered layers).get? key = layers.reverse.findSome? fun layer => layer.get? key := by
  have laid (options : Options) : (layers.foldl merge options).get? key =
      (layers.reverse.findSome? fun layer => layer.get? key).or (options.get? key) := by
    induction layers generalizing options with
    | nil => rfl
    | cons layer rest ih =>
      have last : [layer].findSome? (fun layer => layer.get? key) = layer.get? key := by
        rw [List.findSome?_cons]
        cases layer.get? key <;> rfl
      rw [List.foldl_cons, ih, get?_merge, List.reverse_cons, List.findSome?_append, last,
        Option.or_assoc]
  rw [layered, laid, Table.get?_empty, Option.or_none]

end Options

end ComponentProjects
