import TemplateCensus.Census.Registry
import TemplateCensus.Proofs.Keyed
import TemplateCensus.Proofs.Spelling.Bare

/-! Which constructor calls count, said without the verdicts, and what the census makes of them:
all of them in order for the paragraphs, the last one of each type for the registry. -/

namespace TemplateCensus

/-- The class template that a constructed type goes back to. It describes the pattern of the
record; a template that describes the record itself does not matter. -/
def Construction.origin? (c : Construction) : Option ClassTemplate :=
  (c.record.bind (·.pattern)).bind (·.described)

/-- A call counts when it stands in the main file and constructs, under some spelling, an
instantiation of a class template that is declared outside the main file. -/
def SourceUnit.accepts (u : SourceUnit) (c : Construction) : Bool :=
  u.inMain c.location && c.origin?.any (!u.inMain ·.location) && c.canonical ≠ ""

def Construction.instantiationOf (c : Construction) (d : ClassTemplate) : Instantiation where
  type := c.canonical
  source := (d.location.map (·.file)).getD ""
  template := d.name
  params := d.params
  location := c.location

def Construction.instantiation? (c : Construction) : Option Instantiation :=
  c.origin?.map c.instantiationOf

def SourceUnit.sites (u : SourceUnit) : List Construction := u.constructions.filterMap id

theorem Construction.type_of_instantiation? {c : Construction} {i : Instantiation}
    (h : c.instantiation? = some i) : i.type = c.canonical := by
  obtain ⟨d, -, rfl⟩ := Option.map_eq_some_iff.mp h
  rfl

theorem SourceUnit.isSome_instantiation? {u : SourceUnit} {c : Construction}
    (h : u.accepts c) : c.instantiation?.isSome := by
  rw [accepts, Bool.and_eq_true, Bool.and_eq_true, Option.any_eq_true] at h
  obtain ⟨⟨-, d, hd, -⟩, -⟩ := h
  rw [Construction.instantiation?, hd]
  rfl

theorem Construction.resolve_of_origin {u : SourceUnit} {c : Construction} {d : ClassTemplate}
    (h : c.origin? = some d) :
    c.resolve u = if u.inMain d.location then .error (.declaredInMain d.name)
      else if c.canonical = "" then .error .unnamed else .ok (c.instantiationOf d) := by
  obtain ⟨p, hp, hd⟩ := Option.bind_eq_some_iff.mp h
  obtain ⟨r, hr, hp⟩ := Option.bind_eq_some_iff.mp hp
  simp only [resolve, hr, hp, hd]
  rfl

theorem Construction.resolve_of_no_origin {u : SourceUnit} {c : Construction}
    (h : c.origin? = none) : ∃ why, c.resolve u = .error why := by
  unfold resolve
  split
  · exact ⟨_, rfl⟩
  · next r hr =>
    split
    · exact ⟨_, rfl⟩
    · next p hp =>
      have hd : p.described = none := by simpa [origin?, hr, hp] using h
      rw [hd]
      exact ⟨_, rfl⟩

theorem SourceUnit.accepted?_judge (u : SourceUnit) (c : Construction) :
    (u.judge (some c)).accepted? = if u.accepts c then c.instantiation? else none := by
  by_cases hloc : u.inMain c.location
  · rcases Option.eq_none_or_eq_some c.origin? with hd | ⟨d, hd⟩
    · obtain ⟨why, hwhy⟩ := Construction.resolve_of_no_origin (u := u) hd
      simp [judge, accepts, hloc, hd, hwhy, Verdict.accepted?]
    · have hr := Construction.resolve_of_origin (u := u) hd
      by_cases hm : u.inMain d.location <;> by_cases hc : c.canonical = "" <;>
        simp [judge, accepts, Construction.instantiation?, hloc, hd, hr, hm, hc, Verdict.accepted?]
  · simp [judge, accepts, hloc, Verdict.accepted?]

theorem SourceUnit.accepted_census (u : SourceUnit) (t : Trace) :
    (u.census t).accepted = (u.sites.filter u.accepts).filterMap Construction.instantiation? := by
  simp only [census, sites, List.filterMap_map, List.filterMap_filter, List.filterMap_filterMap]
  apply List.filterMap_congr
  intro oc _
  cases oc with
  | none => rfl
  | some c => exact u.accepted?_judge c

theorem map_some_filterMap {α β : Type} {f : α → Option β} {xs : List α}
    (h : ∀ x ∈ xs, (f x).isSome) : (xs.filterMap f).map some = xs.map f := by
  induction xs with
  | nil => rfl
  | cons x xs ih =>
    obtain ⟨y, hy⟩ := Option.isSome_iff_exists.mp (h x List.mem_cons_self)
    rw [List.filterMap_cons_some hy, List.map_cons, List.map_cons, hy,
      ih fun z hz => h z (List.mem_cons_of_mem _ hz)]

theorem getLast?_filterMap {α β : Type} {f : α → Option β} {xs : List α}
    (h : ∀ x ∈ xs, (f x).isSome) : (xs.filterMap f).getLast? = xs.getLast?.bind f := by
  have hlast := congrArg List.getLast? (map_some_filterMap h)
  rw [List.getLast?_map, List.getLast?_map] at hlast
  cases hx : xs.getLast? with
  | none =>
    rw [hx] at hlast
    exact Option.map_eq_none_iff.mp hlast
  | some x =>
    rw [hx, Option.map_some] at hlast
    obtain ⟨y, hy, hxy⟩ := Option.map_eq_some_iff.mp hlast
    rw [hy, Option.bind_some, hxy]

theorem Registry.find?_foldl_add (is : List Instantiation) (r : Registry) (k : String) :
    (is.foldl Registry.add r).find? k = (is.filter (·.type = k)).getLast?.or (r.find? k) := by
  induction is generalizing r with
  | nil => simp
  | cons i is ih =>
    rw [List.foldl_cons, ih, Registry.add, Keyed.find?_insert]
    by_cases hk : k = i.type
    · -- any later instantiation under the key hides this one
      rw [if_pos hk, List.filter_cons_of_pos (by simp [hk]), List.getLast?_cons]
      cases (is.filter (·.type = k)).getLast? <;> rfl
    · rw [if_neg hk, List.filter_cons_of_neg (by simpa using Ne.symm hk)]

theorem SourceUnit.filter_accepted_census (u : SourceUnit) (t : Trace) (k : String) :
    (u.census t).accepted.filter (·.type = k) =
      (u.sites.filter fun c => u.accepts c && c.canonical = k).filterMap
        Construction.instantiation? := by
  rw [u.accepted_census t, List.filterMap_filter, List.filterMap_filter, List.filter_filterMap]
  apply List.filterMap_congr
  intro c _
  cases u.accepts c with
  | false => rfl
  | true =>
    rcases hi : c.instantiation? with _ | i
    · simp
    · simp [Option.filter, Construction.type_of_instantiation? hi]

theorem SourceUnit.find?_census (u : SourceUnit) (t : Trace) (k : String) :
    (u.census t).registry.find? k =
      (u.sites.filter fun c => u.accepts c && c.canonical = k).getLast?.bind
        Construction.instantiation? := by
  rw [Census.registry, Registry.find?_foldl_add, u.filter_accepted_census t, Keyed.find?_empty,
    Option.or_none]
  apply getLast?_filterMap
  intro c hc
  exact u.isSome_instantiation? (Bool.and_eq_true_iff.mp (List.mem_filter.mp hc).2).1

theorem SourceUnit.mem_keys_census (u : SourceUnit) (t : Trace) (k : String) :
    k ∈ (u.census t).registry.keys ↔ ∃ c ∈ u.sites, u.accepts c ∧ c.canonical = k := by
  rw [Keyed.mem_keys, u.find?_census]
  constructor
  · intro h
    obtain ⟨i, hi⟩ := Option.isSome_iff_exists.mp h
    obtain ⟨c, hc, -⟩ := Option.bind_eq_some_iff.mp hi
    obtain ⟨hmem, hacc⟩ := List.mem_filter.mp (List.mem_of_getLast? hc)
    exact ⟨c, hmem, by simpa using hacc⟩
  · rintro ⟨c, hmem, hacc, hk⟩
    have hne : (u.sites.filter fun c => u.accepts c && c.canonical = k) ≠ [] :=
      List.ne_nil_of_mem (List.mem_filter.mpr ⟨hmem, by simp [hacc, hk]⟩)
    obtain ⟨d, hd⟩ := Option.isSome_iff_exists.mp (List.getLast?_isSome.mpr hne)
    have hd' := (List.mem_filter.mp (List.mem_of_getLast? hd)).2
    rw [hd]
    exact u.isSome_instantiation? (Bool.and_eq_true_iff.mp hd').1

theorem Construction.bare_canonical (c : Construction) :
    Spelling.bare c.canonical = c.canonical := by
  unfold canonical
  cases c.type with
  | none => exact Spelling.bare_empty
  | some t => exact Spelling.bare_bare _

/-- The census of a unit: every call that counts is handed out once, in the order of the text; the
keys of the registry are the spellings of these calls, each in its bare form; and under each key
stands the instantiation of the last call with that spelling. -/
theorem SourceUnit.census_eq_last_accepted (u : SourceUnit) (t : Trace) :
    (u.census t).accepted.map some =
        (u.sites.filter u.accepts).map Construction.instantiation? ∧
      (∀ k, k ∈ (u.census t).registry.keys ↔ ∃ c ∈ u.sites, u.accepts c ∧ c.canonical = k) ∧
      (∀ k, (u.census t).registry.find? k =
        (u.sites.filter fun c => u.accepts c && c.canonical = k).getLast?.bind
          Construction.instantiation?) ∧
      ∀ k ∈ (u.census t).registry.keys, Spelling.bare k = k := by
  refine ⟨?_, u.mem_keys_census t, u.find?_census t, ?_⟩
  · rw [u.accepted_census t]
    exact map_some_filterMap fun c hc => u.isSome_instantiation? (List.mem_filter.mp hc).2
  · intro k hk
    obtain ⟨c, -, -, rfl⟩ := (u.mem_keys_census t k).mp hk
    exact c.bare_canonical

end TemplateCensus
