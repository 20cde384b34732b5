import Mathlib.Data.List.Sort
import Mathlib.Data.String.Basic
import Mathlib.Tactic.SplitIfs
import TemplateCensus.Keyed

/-! Finite maps read back: a map answers with the last value that was put under a key. Since the
entries stand in order, a map is no more than its answers. -/

namespace TemplateCensus

namespace Keyed
variable {α β : Type}

theorem lookup_cons_eq (k l : String) (a : α) (es : List (String × α)) :
    ((k, a) :: es).lookup l = if l = k then some a else es.lookup l := by
  rw [List.lookup_cons]
  by_cases h : l = k
  · rw [if_pos h, beq_iff_eq.mpr h]
  · rw [if_neg h, beq_false_of_ne h]

theorem lookup_put (k l : String) (a : α) (es : List (String × α)) :
    (put k a es).lookup l = if l = k then some a else es.lookup l := by
  induction es with
  | nil => exact lookup_cons_eq k l a []
  | cons e es ih =>
    obtain ⟨m, b⟩ := e
    rw [put]
    split_ifs with hlt hl hkm hl hl
    · rw [lookup_cons_eq, if_pos hl]
    · rw [lookup_cons_eq, if_neg hl]
    · rw [lookup_cons_eq, if_pos hl]
    · rw [lookup_cons_eq, lookup_cons_eq, if_neg hl, if_neg (hkm ▸ hl)]
    · rw [lookup_cons_eq, if_neg (hl ▸ hkm), ih, if_pos hl]
    · rw [lookup_cons_eq, lookup_cons_eq, ih, if_neg hl]

@[simp] theorem find?_empty (l : String) : (empty : Keyed α).find? l = none := rfl

@[simp] theorem find?_insert (m : Keyed α) (k l : String) (a : α) :
    (m.insert k a).find? l = if l = k then some a else m.find? l := lookup_put k l a m.entries

theorem isSome_lookup_iff {es : List (String × α)} {k : String} :
    (es.lookup k).isSome ↔ k ∈ es.map (·.1) := by
  rw [List.lookup_isSome_iff, List.mem_map]
  constructor
  · rintro ⟨e, he, hk⟩
    exact ⟨e, he, (beq_iff_eq.mp hk).symm⟩
  · rintro ⟨e, he, rfl⟩
    exact ⟨e, he, beq_self_eq_true _⟩

theorem mem_of_lookup {es : List (String × α)} {k : String} {a : α} (h : es.lookup k = some a) :
    (k, a) ∈ es := by
  obtain ⟨before, after, rfl, -⟩ := List.lookup_eq_some_iff.mp h
  exact List.mem_append_right before List.mem_cons_self

theorem mem_keys {m : Keyed α} {k : String} : k ∈ m.keys ↔ (m.find? k).isSome :=
  isSome_lookup_iff.symm

theorem pairwise_keys (m : Keyed α) : m.keys.Pairwise (· < ·) := List.pairwise_map.mpr m.ordered

theorem lookup_eq_some_iff_mem {es : List (String × α)} (h : es.Pairwise (·.1 ≠ ·.1))
    {k : String} {a : α} : es.lookup k = some a ↔ (k, a) ∈ es := by
  refine ⟨mem_of_lookup, fun hmem => ?_⟩
  obtain ⟨before, after, rfl⟩ := List.append_of_mem hmem
  refine List.lookup_eq_some_iff.mpr ⟨before, after, rfl, fun e he => bne_iff_ne.mpr ?_⟩
  exact ((List.pairwise_append.mp h).2.2 e he (k, a) List.mem_cons_self).symm

theorem pairwise_key_ne (m : Keyed α) : m.entries.Pairwise (·.1 ≠ ·.1) :=
  m.ordered.imp fun h => h.ne

theorem find?_eq_some_iff {m : Keyed α} {k : String} {a : α} :
    m.find? k = some a ↔ (k, a) ∈ m.entries := lookup_eq_some_iff_mem m.pairwise_key_ne

theorem ext_find? {m n : Keyed α} (h : ∀ k, m.find? k = n.find? k) : m = n := by
  have hmem : ∀ e, e ∈ m.entries ↔ e ∈ n.entries := fun e => by
    rw [← Prod.eta e, ← find?_eq_some_iff, ← find?_eq_some_iff, h]
  have hnodup : ∀ l : Keyed α, l.entries.Nodup := fun l =>
    l.pairwise_key_ne.imp fun hne heq => hne (congrArg _ heq)
  have hperm := (List.perm_ext_iff_of_nodup (hnodup m) (hnodup n)).mpr hmem
  have heq : m.entries = n.entries :=
    hperm.eq_of_pairwise (fun _ _ _ _ hab hba => absurd hba hab.asymm) m.ordered n.ordered
  obtain ⟨es, _⟩ := m
  obtain ⟨fs, _⟩ := n
  cases heq
  rfl

@[simp] theorem find?_map (f : α → β) (m : Keyed α) (k : String) :
    (m.map f).find? k = (m.find? k).map f := by
  apply Option.ext
  intro b
  rw [find?_eq_some_iff, Option.map_eq_some_iff, map, List.mem_map]
  constructor
  · rintro ⟨⟨l, a⟩, he, heq⟩
    obtain ⟨rfl, rfl⟩ := Prod.mk.inj heq
    exact ⟨a, find?_eq_some_iff.mpr he, rfl⟩
  · rintro ⟨a, ha, rfl⟩
    exact ⟨(k, a), find?_eq_some_iff.mp ha, rfl⟩

theorem find?_foldl_insert (es : List (String × α)) (m : Keyed α) (k : String) :
    (es.foldl (fun acc e => acc.insert e.1 e.2) m).find? k =
      (es.reverse.lookup k).or (m.find? k) := by
  induction es generalizing m with
  | nil => rfl
  | cons e es ih =>
    obtain ⟨l, a⟩ := e
    rw [List.foldl_cons, ih, find?_insert, List.reverse_cons, List.lookup_append, Option.or_assoc,
      lookup_cons_eq]
    by_cases h : k = l
    · rw [if_pos h, if_pos h]
      rfl
    · rw [if_neg h, if_neg h]
      rfl

@[simp] theorem find?_merge (m n : Keyed α) (k : String) :
    (m.merge n).find? k = (n.find? k).or (m.find? k) := by
  have hrev : n.entries.reverse.lookup k = n.find? k := by
    apply Option.ext
    intro a
    rw [lookup_eq_some_iff_mem (List.pairwise_reverse.mpr (n.pairwise_key_ne.imp Ne.symm)),
      List.mem_reverse, find?_eq_some_iff]
  rw [merge, find?_foldl_insert, hrev]

theorem map_map {γ : Type} (f : α → β) (g : β → γ) (m : Keyed α) :
    m.map (fun a => g (f a)) = (m.map f).map g := by
  apply ext_find?
  intro k
  rw [find?_map, find?_map, find?_map, Option.map_map]
  rfl

theorem map_insert (f : α → β) (m : Keyed α) (k : String) (a : α) :
    (m.insert k a).map f = (m.map f).insert k (f a) := by
  apply ext_find?
  intro l
  rw [find?_map, find?_insert, find?_insert, find?_map]
  split_ifs <;> rfl

theorem map_merge (f : α → β) (m n : Keyed α) :
    (m.merge n).map f = (m.map f).merge (n.map f) := by
  apply ext_find?
  intro k
  rw [find?_map, find?_merge, find?_merge, find?_map, find?_map, Option.map_or]

@[simp] theorem empty_merge (m : Keyed α) : empty.merge m = m := by
  apply ext_find?
  intro k
  rw [find?_merge, find?_empty, Option.or_none]

theorem foldl_insert_map (f : α → β) (m : Keyed α) :
    m.entries.foldl (fun acc e => acc.insert e.1 (f e.2)) empty = m.map f := by
  rw [← empty_merge (m.map f), merge, map, List.foldl_map]

theorem mem_values {m : Keyed α} {a : α} : a ∈ m.values ↔ ∃ k, m.find? k = some a := by
  rw [values, List.mem_map]
  constructor
  · rintro ⟨⟨k, _⟩, he, rfl⟩
    exact ⟨k, find?_eq_some_iff.mpr he⟩
  · rintro ⟨k, hk⟩
    exact ⟨(k, a), find?_eq_some_iff.mp hk, rfl⟩

theorem map_congr {f g : α → β} {m : Keyed α} (h : ∀ a ∈ m.values, f a = g a) :
    m.map f = m.map g := by
  apply ext_find?
  intro k
  rw [find?_map, find?_map]
  apply Option.map_congr
  intro a ha
  exact h a (mem_values.mpr ⟨k, ha⟩)

end Keyed

theorem pairwise_ascending (texts : List String) : (ascending texts).Pairwise (· < ·) :=
  Keyed.pairwise_keys _

theorem mem_ascending {t : String} {texts : List String} : t ∈ ascending texts ↔ t ∈ texts := by
  rw [ascending, Keyed.mem_keys, Keyed.ofList, Keyed.find?_foldl_insert, Keyed.find?_empty,
    Option.or_none, List.lookup_isSome_iff]
  simp

end TemplateCensus
