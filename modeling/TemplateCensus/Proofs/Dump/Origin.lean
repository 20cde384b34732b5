import TemplateCensus.Dump.Unit
import TemplateCensus.Proofs.Census.Acceptance
import TemplateCensus.Proofs.Dump.DocumentOrder
import TemplateCensus.Proofs.Spelling.Scope

/-! The class template that a constructed type goes back to. The record of a call depends on the
spelling of its type only, whatever the memo held, so all calls of one spelling have one origin,
and the registry of a dump can be read off its nodes. -/

namespace TemplateCensus.Dump

open Spelling

/-! ## Records without the memo -/

def Tables.recordOf (t : Tables) (spelling : String) : Option RecordDecl :=
  if namesRecord spelling then some (t.resolve spelling).1 else none

def Memo.Sound (memo : Memo) (t : Tables) : Prop :=
  ∀ k r, memo.find? k = some r → r = (t.resolve k).1

theorem Memo.sound_insert {memo : Memo} {t : Tables} (h : memo.Sound t) (k : String) :
    Memo.Sound (memo.insert k (t.resolve k).1) t := by
  intro l r hr
  rw [Keyed.find?_insert] at hr
  split_ifs at hr with hl
  · rw [hl, Option.some.inj hr]
  · exact h l r hr

theorem Tables.recall_of_sound {t : Tables} {memo : Memo} (h : memo.Sound t) (k : String) :
    (t.recall memo k).1 = t.recordOf k ∧ Memo.Sound (t.recall memo k).2.1 t := by
  unfold Tables.recall Tables.recordOf
  split_ifs with hk
  · cases hr : memo.find? k with
    | some r => exact ⟨congrArg some (h k r hr), h⟩
    | none => exact ⟨rfl, Memo.sound_insert h k⟩
  · exact ⟨rfl, h⟩

def Tables.settle (t : Tables) (c : Construction) : Construction :=
  { c with record := t.recordOf c.canonical }

theorem Tables.settle_of_no_type {t : Tables} {c : Construction} (htype : c.type = none)
    (hrecord : c.record = none) : t.settle c = c := by
  have hc : t.recordOf c.canonical = none := by
    rw [Construction.canonical, htype]
    rfl
  rw [settle, hc, ← hrecord]

theorem Tables.attach_eq_map {t : Tables} (cs : List Construction) {memo : Memo}
    (h : memo.Sound t) (hcs : ∀ c ∈ cs, c.record = none) :
    (t.attach memo cs).1 = cs.map t.settle := by
  induction cs generalizing memo with
  | nil => rfl
  | cons c cs ih =>
    have hrest := fun d hd => hcs d (List.mem_cons_of_mem _ hd)
    cases htype : c.type with
    | none =>
      -- a missing type has the empty spelling, which names no record
      rw [List.map_cons, settle_of_no_type htype (hcs c List.mem_cons_self), ← ih h hrest, attach,
        htype]
      rfl
    | some ty =>
      obtain ⟨hr, hm⟩ := t.recall_of_sound h c.canonical
      rw [List.map_cons, settle, ← hr, ← ih hm hrest, attach, htype]
      rfl

/-! ## Origins -/

def Tables.origin? (t : Tables) (spelling : String) : Option ClassTemplate :=
  ((t.recordOf spelling).bind (·.pattern)).bind (·.described)

theorem dropLast_concat_lastPart (k : String) :
    (scopeParts k).dropLast ++ [lastPart k] = scopeParts k := by
  have hne : scopeParts k ≠ [] := by simpa [scopeParts] using scopePieces_ne_nil 0 k.toList
  rw [lastPart, List.getLastD_eq_getLast?, List.getLast?_eq_some_getLast hne, Option.getD_some]
  exact List.dropLast_concat_getLast hne

theorem plainName_of_template? {k name : String} {args : List String}
    (h : Spelling.template? (lastPart k) = some (name, args)) :
    plainName k = qualify ((scopeParts k).dropLast.map templateName ++ [name]) := by
  have hname : templateName (lastPart k) = name := by rw [templateName, h]; rfl
  rw [plainName, ← dropLast_concat_lastPart k, List.map_append, List.map_singleton, hname,
    List.dropLast_concat]

theorem Tables.described_resolve (t : Tables) (k : String) :
    (t.resolve k).1.pattern.bind (·.described) =
      (Spelling.template? (lastPart k)).bind fun (name, args) =>
        (t.template? (plainName k)).filter fun d =>
          d.record.isSome && t.isInstantiation d (plainName k) name args := by
  cases hlast : Spelling.template? (lastPart k) with
  | none =>
    rw [lastPart] at hlast
    simp only [resolve, hlast, Option.bind_none]
  | some na =>
    obtain ⟨name, args⟩ := na
    rw [plainName_of_template? hlast]
    rw [lastPart] at hlast
    simp only [resolve, hlast, Option.bind_some]
    cases t.template? (qualify ((scopeParts k).dropLast.map templateName ++ [name])) with
    | none => rfl
    | some d =>
      cases hrec : d.record with
      | none => simp [Option.filter, hrec]
      | some r =>
        simp only [Option.filter, hrec, Option.isSome_some, Bool.true_and]
        split
        · simp [ClassTemplate.pattern?, hrec]
        · rfl

theorem Tables.origin?_eq_some_iff {t : Tables} {k : String} {d : ClassTemplate} :
    t.origin? k = some d ↔
      namesRecord k ∧ ∃ name args, Spelling.template? (lastPart k) = some (name, args) ∧
        t.template? (plainName k) = some d ∧ d.record.isSome ∧
        t.isInstantiation d (plainName k) name args := by
  unfold origin? recordOf
  split_ifs with hk
  · rw [Option.bind_some, described_resolve]
    simp only [hk, true_and, Option.bind_eq_some_iff, Option.filter_eq_some_iff, Prod.exists,
      Bool.and_eq_true]
  · simp [hk]

/-! ## Looking up class templates -/

theorem mem_of_preferred {ds : List ClassTemplate} {d : ClassTemplate}
    (h : preferred ds = some d) : d ∈ ds := by
  rcases Option.or_eq_some_iff.mp h with h | ⟨-, h⟩
  · exact List.mem_of_find?_eq_some h
  · exact List.mem_of_head? h

theorem exists_preferred {ds : List ClassTemplate} (h : ds ≠ []) : ∃ d, preferred ds = some d := by
  obtain ⟨d, ds, rfl⟩ := List.exists_cons_of_ne_nil h
  cases hf : (d :: ds).find? fun d => d.record.any (·.isDefinition) with
  | none => exact ⟨d, by rw [preferred, hf]; rfl⟩
  | some e => exact ⟨e, by rw [preferred, hf]; rfl⟩

theorem isDefinition_of_preferred {ds : List ClassTemplate} {d e : ClassTemplate}
    (h : preferred ds = some d) (he : e ∈ ds) (hdef : e.record.any (·.isDefinition)) :
    d.record.any (·.isDefinition) := by
  rcases Option.or_eq_some_iff.mp h with h | ⟨hnone, -⟩
  · exact List.find?_some (p := fun d : ClassTemplate => d.record.any (·.isDefinition)) h
  · exact absurd hdef (List.find?_eq_none.mp hnone e he)

theorem declaredName_of_agree {ds : List ClassTemplate} (h : agree ds) {d e : ClassTemplate}
    (hd : d ∈ ds) (he : e ∈ ds) : declaredName d = declaredName e := by
  cases ds with
  | nil => exact nomatch hd
  | cons f ds =>
    have hall : ∀ g ∈ f :: ds, declaredName g = declaredName f := by
      rintro g (_ | ⟨_, hg⟩)
      · rfl
      · exact of_decide_eq_true (List.all_eq_true.mp h g hg)
    rw [hall d hd, hall e he]

theorem Tables.template?_of_answersTo {t : Tables} {q : String} {n : Named ClassTemplate}
    (hn : n ∈ t.templates) (hq : n.answersTo q) :
    ∃ m ∈ t.templates, m.answersTo q ∧ t.template? q = some m.item ∧
      ∀ l ∈ t.templates, l.answersTo q → l.item.record.any (·.isDefinition) →
        m.item.record.any (·.isDefinition) := by
  have hmem : n.item ∈ t.templatesNamed q :=
    List.mem_map_of_mem (List.mem_filter.mpr ⟨hn, hq⟩)
  obtain ⟨d, hd⟩ := exists_preferred (List.ne_nil_of_mem hmem)
  obtain ⟨m, hm, rfl⟩ := List.mem_map.mp (mem_of_preferred hd)
  refine ⟨m, (List.mem_filter.mp hm).1, (List.mem_filter.mp hm).2, ?_, fun l hl hlq => ?_⟩
  · unfold template?
    split
    · next hnil => exact absurd (hnil ▸ hmem) List.not_mem_nil
    · exact hd
  · exact isDefinition_of_preferred hd (List.mem_map_of_mem (List.mem_filter.mpr ⟨hl, hlq⟩))

theorem Tables.template?_of_not_answersTo {t : Tables} {q : String}
    (h : ∀ n ∈ t.templates, ¬n.answersTo q) :
    t.template? q = if agree (t.templatesCalled (lastPart q)) then
      preferred (t.templatesCalled (lastPart q)) else none := by
  have hnil : t.templatesNamed q = [] := by
    rw [templatesNamed, List.map_eq_nil_iff, List.filter_eq_nil_iff]
    exact h
  rw [template?, hnil]

/-- A class template is found by a qualified name that it is known by, or else by its bare name,
when none is known by the qualified name and all of that bare name are declared alike. -/
theorem Tables.exists_of_template? {t : Tables} {q : String} {d : ClassTemplate}
    (h : t.template? q = some d) :
    ∃ n ∈ t.templates, n.item = d ∧ (n.answersTo q ∨
      (∀ m ∈ t.templates, ¬m.answersTo q) ∧ n.name = lastPart q ∧
        ∀ m ∈ t.templates, m.name = n.name → declaredName m.item = declaredName d) := by
  by_cases hq : ∃ n ∈ t.templates, n.answersTo q
  · obtain ⟨n, hn, hq⟩ := hq
    obtain ⟨m, hm, hmq, hmd, -⟩ := template?_of_answersTo hn hq
    exact ⟨m, hm, Option.some.inj (hmd.symm.trans h), .inl hmq⟩
  · have hno : ∀ n ∈ t.templates, ¬n.answersTo q := fun n hn hnq => hq ⟨n, hn, hnq⟩
    rw [template?_of_not_answersTo hno] at h
    split_ifs at h with hagree
    have hd := mem_of_preferred h
    obtain ⟨n, hn, rfl⟩ := List.mem_map.mp hd
    obtain ⟨hn, hname⟩ := List.mem_filter.mp hn
    have hname := of_decide_eq_true hname
    refine ⟨n, hn, rfl, .inr ⟨hno, hname, fun m hm hmn => ?_⟩⟩
    refine declaredName_of_agree hagree (List.mem_map_of_mem ?_) hd
    exact List.mem_filter.mpr ⟨hm, decide_eq_true (hmn.trans hname)⟩

theorem Tables.isInstantiation_of_no_specialization {t : Tables} {q name : String}
    (h : ∀ n ∈ t.specializations, ¬n.answersTo q ∧ n.name ≠ name) (d : ClassTemplate)
    (args : List String) : t.isInstantiation d q name args := by
  have hknown : t.specializations.filter (·.answersTo q) = [] :=
    List.filter_eq_nil_iff.mpr fun n hn => (h n hn).1
  have hcalled : t.specializations.filter (·.name = name) = [] :=
    List.filter_eq_nil_iff.mpr fun n hn => by simpa using (h n hn).2
  have hnone : t.candidates q name = [] := by
    rw [candidates, hknown, hcalled]
    split <;> rfl
  rw [isInstantiation, specialization?, hnone]
  rfl

/-! ## The registry of a dump -/

/-- A surveyed dump in terms of the nodes of the dump. -/
structure Surveyed.Shows (s : Surveyed) (main : String) (root : Node) : Prop where
  main_eq : s.main = main
  constructions_eq : s.constructions =
    (root.visits.filter (·.attrs.hasRole .construction)).map fun v => s.tables.settle v.construction
  mem_templates : ∀ n, n ∈ s.tables.templates ↔
    ∃ v ∈ root.visits, v.attrs.hasRole .classTemplate ∧ v.named v.template = n
  mem_specializations : ∀ n ∈ s.tables.specializations,
    ∃ v ∈ root.visits, v.attrs.hasRole .specialization ∧ ∃ x, v.named x = n

theorem Memo.sound_empty (t : Tables) : Memo.Sound Keyed.empty t := by
  intro k r hr
  rw [Keyed.find?_empty] at hr
  cases hr

theorem shows_of_ofNode {main : String} {root : Node} {s : Surveyed}
    (h : ofNode main root = .ok s) : s.Shows main root := by
  cases root with
  | null => cases h
  | mk a children =>
    simp only [ofNode] at h
    split_ifs at h with hkind hgap
    cases h
    constructor
    · rfl
    · rw [constructions_surveyAll, Tables.attach_eq_map _ (Memo.sound_empty _), List.map_map]
      · rfl
      · intro c hc
        obtain ⟨v, -, rfl⟩ := List.mem_map.mp hc
        rfl
    · intro n
      exact mem_templates_surveyAll
    · intro n hn
      exact exists_of_mem_specializations_surveyAll hn

def Node.sites (main : String) (root : Node) (k : String) : List Visit :=
  root.visits.filter fun v => v.attrs.hasRole .construction && Surveyed.inMain main v.start &&
    v.construction.canonical = k

theorem Node.canonical_of_mem_sites {main : String} {root : Node} {k : String} {v : Visit}
    (h : v ∈ root.sites main k) : v.construction.canonical = k :=
  of_decide_eq_true (Bool.and_eq_true_iff.mp (List.mem_filter.mp h).2).2

theorem Tables.origin?_empty (t : Tables) : t.origin? "" = none := rfl

namespace Surveyed.Shows

variable {s : Surveyed} {main : String} {root : Node}

theorem accepts_settle (h : s.Shows main root) (v : Visit) :
    s.unit.accepts (s.tables.settle v.construction) =
      (inMain main v.start &&
        (s.tables.origin? v.construction.canonical).any (!inMain main ·.location)) := by
  have horigin : (s.tables.settle v.construction).origin? =
      s.tables.origin? v.construction.canonical := rfl
  have hname : (s.tables.settle v.construction).canonical = v.construction.canonical := rfl
  have hstart : (s.tables.settle v.construction).location = v.start := rfl
  have hmain : s.unit.inMain = inMain main := by rw [← h.main_eq]; rfl
  rw [SourceUnit.accepts, hmain, hstart, horigin, hname]
  by_cases hk : v.construction.canonical = ""
  · rw [hk, Tables.origin?_empty]
    simp
  · simp [hk]

theorem sites_eq (h : s.Shows main root) : s.unit.sites =
    (root.visits.filter (·.attrs.hasRole .construction)).map
      fun v => s.tables.settle v.construction := by
  rw [← h.constructions_eq, SourceUnit.sites, unit, List.filterMap_map]
  exact List.filterMap_some

theorem filter_sites (h : s.Shows main root) (k : String) :
    (s.unit.sites.filter fun c => s.unit.accepts c && c.canonical = k) =
      if (s.tables.origin? k).any (!inMain main ·.location) then
        (root.sites main k).map fun v => s.tables.settle v.construction
      else [] := by
  have hcanon : ∀ v : Visit,
      (s.tables.settle v.construction).canonical = v.construction.canonical := fun _ => rfl
  rw [h.sites_eq, List.filter_map, List.filter_filter]
  -- calls of one type have one origin, so all of them count or none does
  split_ifs with ho
  · rw [Node.sites]
    congr 1
    apply List.filter_congr
    intro v _
    rw [Function.comp_apply, h.accepts_settle, hcanon]
    by_cases hk : v.construction.canonical = k
    · rw [hk, ho]
      simp [Bool.and_comm]
    · simp [hk]
  · rw [List.map_eq_nil_iff, List.filter_eq_nil_iff]
    intro v _
    rw [Function.comp_apply, h.accepts_settle, hcanon]
    by_cases hk : v.construction.canonical = k
    · rw [hk]
      simp [ho]
    · simp [hk]

/-- Under a type stands the last call in the main file that constructs it, with the origin of the
type, as long as this is not declared in the main file itself. -/
theorem find?_census_eq_some_iff (h : s.Shows main root) {t : Trace} {k : String}
    {i : Instantiation} :
    (s.unit.census t).registry.find? k = some i ↔
      ∃ d, s.tables.origin? k = some d ∧ ¬inMain main d.location ∧
        ∃ v, (root.sites main k).getLast? = some v ∧ v.construction.instantiationOf d = i := by
  rw [SourceUnit.find?_census, h.filter_sites]
  rcases ho : s.tables.origin? k with _ | d
  · simp
  by_cases hd : inMain main d.location
  · simp [hd]
  · have hinst : ∀ v, (root.sites main k).getLast? = some v →
        (s.tables.settle v.construction).instantiation? =
          some (v.construction.instantiationOf d) := by
      intro v hv
      have horigin : (s.tables.settle v.construction).origin? = some d := by
        rw [← ho, ← Node.canonical_of_mem_sites (List.mem_of_getLast? hv)]
        rfl
      rw [Construction.instantiation?, horigin]
      rfl
    rw [Option.any_some, if_pos (by simpa using hd), List.getLast?_map]
    cases hlast : (root.sites main k).getLast? with
    | none => simp
    | some v => simp [hinst v hlast, hd]

end Surveyed.Shows

end TemplateCensus.Dump
