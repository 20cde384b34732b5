import Mathlib.Tactic.SplitIfs
import TemplateCensus.Path

/-! Where the characters of a clean path come from. Cleaning drops components and never makes new
ones, so that besides separators and points there is nothing in the clean path that was not in the
paths it was made from. -/

namespace TemplateCensus

theorem Text.mem_of_mem_pieces {sep c : Char} {cs p : List Char} (hp : p ∈ pieces sep cs)
    (hc : c ∈ p) : c ∈ cs := by
  induction cs generalizing p with
  | nil =>
    rw [pieces, List.mem_singleton] at hp
    exact hp ▸ hc
  | cons d cs ih =>
    rw [pieces] at hp
    split_ifs at hp
    · rcases List.mem_cons.mp hp with rfl | hp
      · cases hc
      · exact List.mem_cons_of_mem d (ih hp hc)
    · cases hps : pieces sep cs with
      | nil =>
        rw [hps, consFirst, List.mem_singleton] at hp
        rw [hp] at hc
        exact List.mem_cons.mpr ((List.mem_cons.mp hc).imp_right nofun)
      | cons q qs =>
        rw [hps] at ih hp
        rcases List.mem_cons.mp hp with rfl | hp
        · exact List.mem_cons.mpr ((List.mem_cons.mp hc).imp_right (ih List.mem_cons_self))
        · exact List.mem_cons_of_mem d (ih (List.mem_cons_of_mem q hp) hc)

namespace Path
variable {rooted : Bool} {c : Char} {k p dir file : String} {ks up : List String}

theorem mem_of_mem_components (hk : k ∈ components p) (hc : c ∈ k.toList) : c ∈ p.toList := by
  obtain ⟨q, hq, rfl⟩ := List.mem_map.mp hk
  rw [String.toList_ofList] at hc
  exact Text.mem_of_mem_pieces hq hc

theorem mem_enter {component : String} (h : k ∈ enter rooted up component) :
    k = component ∨ k ∈ up := by
  unfold enter at h
  split at h
  · exact .inr h
  · split at h
    · -- at the start of a relative path, and above it, the component is kept
      rename_i hup
      split at h
      · split at h
        · cases h
        · exact .inl ((List.mem_singleton.mp h).trans hup.symm)
      · exact (List.mem_cons.mp h).imp_left fun hk => hk.trans hup.symm
      · exact .inr (List.mem_cons_of_mem _ h)
    · exact List.mem_cons.mp h

theorem mem_foldl_enter (h : k ∈ ks.foldl (enter rooted) up) : k ∈ up ∨ k ∈ ks := by
  induction ks generalizing up with
  | nil => exact .inl h
  | cons l ks ih =>
    rcases ih h with hk | hk
    · rcases mem_enter hk with rfl | hk
      · exact .inr List.mem_cons_self
      · exact .inl hk
    · exact .inr (List.mem_cons_of_mem l hk)

theorem mem_of_mem_cleanComponents (h : k ∈ cleanComponents rooted ks) : k ∈ ks :=
  (mem_foldl_enter (List.mem_reverse.mp h)).resolve_left nofun

theorem mem_intercalate {sep : String} (h : c ∈ (sep.intercalate ks).toList) :
    c ∈ sep.toList ∨ ∃ k ∈ ks, c ∈ k.toList := by
  induction ks with
  | nil => simp at h
  | cons k ks ih =>
    cases ks with
    | nil =>
      rw [String.intercalate_singleton] at h
      exact .inr ⟨k, List.mem_cons_self, h⟩
    | cons l ks =>
      rw [String.intercalate_cons_cons, String.toList_append, String.toList_append] at h
      rcases List.mem_append.mp h with h | h
      · exact (List.mem_append.mp h).symm.imp_right fun hk => ⟨k, List.mem_cons_self, hk⟩
      · exact (ih h).imp_right fun ⟨m, hm, hc⟩ => ⟨m, List.mem_cons_of_mem k hm, hc⟩

theorem mem_render (h : c ∈ (render rooted ks).toList) :
    c ∈ ['/', '.'] ∨ ∃ k ∈ ks, c ∈ k.toList := by
  have hsep : c ∈ ("/".intercalate ks).toList → c ∈ ['/', '.'] ∨ ∃ k ∈ ks, c ∈ k.toList :=
    fun h => (mem_intercalate h).imp_left fun hc => List.mem_append_left ['.'] hc
  unfold render at h
  split at h
  · rw [String.toList_append] at h
    rcases List.mem_append.mp h with h | h
    · exact .inl (List.mem_append_left ['.'] h)
    · exact hsep h
  · split at h
    · exact .inl (List.mem_append_right ['/'] h)
    · exact hsep h

theorem mem_clean (h : c ∈ (clean p).toList) : c ∈ ['/', '.'] ∨ c ∈ p.toList := by
  refine (mem_render h).imp_right ?_
  rintro ⟨k, hk, hc⟩
  exact mem_of_mem_components (mem_of_mem_cleanComponents hk) hc

theorem mem_join (h : c ∈ (join dir file).toList) :
    c ∈ ['/', '.'] ∨ c ∈ dir.toList ++ file.toList := by
  unfold join at h
  split at h
  · split at h
    · cases h
    · exact (mem_clean h).imp_right (List.mem_append_right _)
  · split at h
    · exact (mem_clean h).imp_right (List.mem_append_left _)
    · rcases mem_clean h with h | h
      · exact .inl h
      · simp only [String.toList_append, List.mem_append] at h
        rcases h with (h | h) | h
        · exact .inr (List.mem_append_left _ h)
        · exact .inl (List.mem_append_left ['.'] h)
        · exact .inr (List.mem_append_right _ h)

theorem mem_absolute (h : c ∈ (absolute dir file).toList) :
    c ∈ ['/', '.'] ∨ c ∈ dir.toList ++ file.toList := by
  unfold absolute at h
  split at h
  · exact (mem_clean h).imp_right (List.mem_append_right _)
  · exact mem_join h

end Path

end TemplateCensus
