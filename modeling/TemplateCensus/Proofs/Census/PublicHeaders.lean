import Mathlib.Data.List.TakeWhile
import TemplateCensus.Census.Registry
import TemplateCensus.Proofs.Keyed

/-! Public headers in registries. Rewriting looks at one entry at a time, so it does not matter
whether registries are merged before or after it. A second rewriting finds a public header in the
place of the source: it changes nothing just if no header that the table gives out is, by its file
name, an entry that leads somewhere else. -/

namespace TemplateCensus

namespace HeaderTable

def IsBareName (p : String) : Prop := '/' ∉ p.toList ∧ '\\' ∉ p.toList

/-- Looking up the file name of a public header gives nothing new. Entries under a name with a
separator in it do not count, since no file name is like that. -/
def IsClosed (t : HeaderTable) : Prop :=
  ∀ k v, t.find? k = some v → IsBareName k →
    t.find? (fileName v) = none ∨ t.find? (fileName v) = some v

theorem isBareName_fileName (p : String) : IsBareName (fileName p) := by
  have hchars : ∀ c ∈ (fileName p).toList, c ≠ '/' ∧ c ≠ '\\' := by
    intro c hc
    rw [fileName, String.toList_ofList, List.mem_reverse] at hc
    simpa using List.mem_takeWhile_imp hc
  exact ⟨fun h => (hchars _ h).1 rfl, fun h => (hchars _ h).2 rfl⟩

theorem fileName_eq_self {p : String} (h : IsBareName p) : fileName p = p := by
  have hchars : ∀ c ∈ p.toList.reverse, (c ≠ '/' && c ≠ '\\') = true := by
    intro c hc
    have hmem := List.mem_reverse.mp hc
    have hslash : c ≠ '/' := fun heq => h.1 (heq ▸ hmem)
    have hback : c ≠ '\\' := fun heq => h.2 (heq ▸ hmem)
    simp [hslash, hback]
  rw [fileName, List.takeWhile_eq_self_iff.mpr hchars, List.reverse_reverse, String.ofList_toList]

theorem isClosed_standard : standard.IsClosed := by
  have hall : ∀ e ∈ standard.entries,
      standard.find? (fileName e.2) = none ∨ standard.find? (fileName e.2) = some e.2 := by
    decide +kernel
  intro k v hkv _
  exact hall (k, v) (Keyed.find?_eq_some_iff.mp hkv)

end HeaderTable

namespace Registry

open HeaderTable

theorem source_publish (t : HeaderTable) (i : Instantiation) :
    (publish t i).source = (t.find? (fileName i.source)).getD i.source := rfl

theorem publish_publish {t : HeaderTable} (h : t.IsClosed) (i : Instantiation) :
    publish t (publish t i) = publish t i := by
  have hsource : (publish t (publish t i)).source = (publish t i).source := by
    rw [source_publish, source_publish]
    cases hv : t.find? (fileName i.source) with
    | none => rw [Option.getD_none, hv, Option.getD_none]
    | some v =>
      rw [Option.getD_some]
      rcases h _ v hv (isBareName_fileName i.source) with hnone | hsome
      · rw [hnone, Option.getD_none]
      · rw [hsome, Option.getD_some]
  calc
    publish t (publish t i) = { i with source := (publish t (publish t i)).source } := rfl
    _ = { i with source := (publish t i).source } := by rw [hsource]
    _ = publish t i := rfl

theorem isClosed_of_canonicalize {t : HeaderTable}
    (h : ∀ r : Registry, (r.canonicalize t).canonicalize t = r.canonicalize t) : t.IsClosed := by
  intro k v hkv hk
  -- an entry whose source is the key itself is rewritten to `v` at first
  let i : Instantiation := ⟨"T", k, "", [], none⟩
  have hfirst : (publish t i).source = v := by
    rw [source_publish, fileName_eq_self hk, hkv, Option.getD_some]
  have hsecond : (publish t (publish t i)).source = (publish t i).source := by
    have hfind := congrArg (Keyed.find? · "T") (h (add .empty i))
    simp only [canonicalize, add, Keyed.find?_map, Keyed.find?_insert] at hfind
    exact congrArg Instantiation.source (Option.some.inj hfind)
  rw [source_publish, hfirst] at hsecond
  cases hheader : t.find? (fileName v) with
  | none => exact .inl rfl
  | some w =>
    rw [hheader, Option.getD_some] at hsecond
    exact .inr (congrArg some hsecond)

theorem canonicalize_foldl_merge (t : HeaderTable) (r : Registry) (rs : List Registry) :
    canonicalize (rs.foldl Keyed.merge r) t =
      (rs.map (canonicalize · t)).foldl Keyed.merge (r.canonicalize t) := by
  induction rs generalizing r with
  | nil => rfl
  | cons s rs ih =>
    have hstep := Keyed.map_merge (publish t) r s
    rw [List.foldl_cons, ih, List.map_cons, List.foldl_cons]
    exact congrArg (List.foldl Keyed.merge · _) hstep

/-- Rewriting sources to public headers: registries may be merged before or after it, two of them or
one for each file; under every key only the source of the entry changes; and once is as good as
twice for all registries just if the table is closed, as the standard one is. -/
theorem canonicalize_laws (t : HeaderTable) :
    (∀ a b : Registry,
      canonicalize (a.merge b) t = (a.canonicalize t).merge (b.canonicalize t)) ∧
    (∀ (r : Registry) (rs : List Registry), canonicalize (rs.foldl Keyed.merge r) t =
      (rs.map (canonicalize · t)).foldl Keyed.merge (r.canonicalize t)) ∧
    (∀ r : Registry, (r.canonicalize t).keys = r.keys ∧
      ∀ k, (r.canonicalize t).find? k = (r.find? k).map fun i =>
        { i with source := (t.find? (fileName i.source)).getD i.source }) ∧
    ((∀ r : Registry, (r.canonicalize t).canonicalize t = r.canonicalize t) ↔ t.IsClosed) ∧
    HeaderTable.standard.IsClosed := by
  refine ⟨Keyed.map_merge (publish t), canonicalize_foldl_merge t, ?_, ⟨?_, ?_⟩, ?_⟩
  · intro r
    refine ⟨?_, Keyed.find?_map (publish t) r⟩
    rw [Keyed.keys, Keyed.keys, canonicalize, Keyed.map, List.map_map]
    rfl
  · exact isClosed_of_canonicalize
  · intro h r
    apply Keyed.ext_find?
    intro k
    simp only [canonicalize, Keyed.find?_map, Option.map_map]
    exact congrArg (Option.map · (r.find? k)) (funext (publish_publish h))
  · exact isClosed_standard

/-- A table that sends one header to another, which it sends on, is not closed. -/
example : ¬HeaderTable.IsClosed (.ofList [("a.h", "b.h"), ("b.h", "c.h")]) := by
  intro h
  have hb := h "a.h" "b.h" (by decide +kernel) (by unfold IsBareName; decide +kernel)
  revert hb
  decide +kernel

end Registry

end TemplateCensus
