import Mathlib.Data.Finset.Card
import TemplateCensus.Proofs.Keyed
import TemplateCensus.UnitCache

/-! The unit cache read back. As long as there is room for all keys in use, a use of one key does
not change what stands under the others. -/

namespace TemplateCensus.UnitCache
variable {α : Type}

theorem mem_entries_use {c : UnitCache α} {k : String} {a : α} {e : String × α}
    (h : e ∈ (c.use k a).entries) : e = (k, a) ∨ e ∈ c.entries := by
  rcases List.mem_cons.mp (List.mem_of_mem_take h) with he | he
  · exact .inl he
  · exact .inr (List.mem_filter.mp he).1

/-- The cache has one entry for each of some of the keys, and room for all of them. -/
structure FitsIn (keys : Finset String) (c : UnitCache α) : Prop where
  nodup : (c.entries.map (·.1)).Nodup
  mem : ∀ e ∈ c.entries, e.1 ∈ keys
  room : keys.card ≤ c.capacity

theorem FitsIn.entries_use {keys : Finset String} {c : UnitCache α} (h : c.FitsIn keys)
    {k : String} (hk : k ∈ keys) (a : α) :
    (c.use k a).entries = (k, a) :: c.entries.filter (·.1 ≠ k) ∧
      (((k, a) :: c.entries.filter (·.1 ≠ k)).map (·.1)).Nodup := by
  have hnodup : (((k, a) :: c.entries.filter (·.1 ≠ k)).map (·.1)).Nodup := by
    refine List.nodup_cons.mpr ⟨fun hmem => ?_, h.nodup.sublist (List.filter_sublist.map _)⟩
    obtain ⟨e, he, hek⟩ := List.mem_map.mp hmem
    exact of_decide_eq_true (List.mem_filter.mp he).2 hek
  have hsub : (((k, a) :: c.entries.filter (·.1 ≠ k)).map (·.1)).toFinset ⊆ keys := by
    intro l hl
    obtain ⟨e, he, rfl⟩ := List.mem_map.mp (List.mem_toFinset.mp hl)
    rcases List.mem_cons.mp he with rfl | he
    · exact hk
    · exact h.mem e (List.mem_filter.mp he).1
  have hlength := (Finset.card_le_card hsub).trans h.room
  rw [List.toFinset_card_of_nodup hnodup, List.length_map] at hlength
  exact ⟨List.take_of_length_le hlength, hnodup⟩

theorem FitsIn.use {keys : Finset String} {c : UnitCache α} (h : c.FitsIn keys)
    {k : String} (hk : k ∈ keys) (a : α) : (c.use k a).FitsIn keys where
  nodup := by
    rw [(h.entries_use hk a).1]
    exact (h.entries_use hk a).2
  mem e he := by
    rcases mem_entries_use he with rfl | he
    · exact hk
    · exact h.mem e he
  room := h.room

theorem lookup_filter_of_ne {k l : String} (h : l ≠ k) (es : List (String × α)) :
    (es.filter (·.1 ≠ k)).lookup l = es.lookup l := by
  induction es with
  | nil => rfl
  | cons e es ih =>
    obtain ⟨m, b⟩ := e
    rw [Keyed.lookup_cons_eq]
    by_cases hm : m = k
    · rw [List.filter_cons_of_neg (by simpa using hm), ih, if_neg (hm ▸ h)]
    · rw [List.filter_cons_of_pos (by simpa using hm), Keyed.lookup_cons_eq, ih]

theorem FitsIn.lookup_use {keys : Finset String} {c : UnitCache α} (h : c.FitsIn keys)
    {k : String} (hk : k ∈ keys) (a : α) (l : String) :
    (c.use k a).entries.lookup l = if l = k then some a else c.entries.lookup l := by
  rw [(h.entries_use hk a).1, Keyed.lookup_cons_eq]
  split_ifs with hl
  · rfl
  · exact lookup_filter_of_ne hl _

end TemplateCensus.UnitCache
