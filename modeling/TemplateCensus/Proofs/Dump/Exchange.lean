import TemplateCensus.Proofs.Dump.Omission
import TemplateCensus.Proofs.Dump.Pattern

/-! Dumps with two neighbouring specializations in the other order. Where every position names its
file and its line, what the survey finds in a node does not depend on the nodes before it, and the
exchange shows in the order of the findings only. -/

namespace TemplateCensus.Dump

open Spelling Attributes

/-! ## Positions that say everything -/

/-- A position that is there names its file and its line. -/
def Attributes.IsExplicit (a : Attributes) : Prop :=
  ∀ p ∈ a.points, p.isValid → p.file ≠ "" ∧ p.line ≠ 0

namespace Cursor

variable {c d : Cursor}

theorem location_pass {p : Point} (h : p.isValid → p.file ≠ "" ∧ p.line ≠ 0) :
    (c.pass p).1 = (d.pass p).1 := by
  by_cases hp : p.isValid
  · obtain ⟨hfile, hline⟩ := h hp
    rw [pass_of_isValid hp, pass_of_isValid hp, if_neg hfile, if_neg hline, if_neg hfile,
      if_neg hline]
  · rw [pass_of_not_isValid hp, pass_of_not_isValid hp]

theorem location_passPoint {s : Option Spot}
    (h : ∀ p ∈ pointOf s, p.isValid → p.file ≠ "" ∧ p.line ≠ 0) :
    (c.passPoint s).1 = (d.passPoint s).1 := by
  cases s with
  | none => rfl
  | some s => exact location_pass (h s.point (List.mem_singleton_self _))

theorem location_passSpot {s : Option Spot}
    (h : ∀ p ∈ pointsOf s, p.isValid → p.file ≠ "" ∧ p.line ≠ 0) :
    (c.passSpot s).1 = (d.passSpot s).1 := by
  cases s with
  | none => rfl
  | some s =>
    unfold pointsOf at h
    unfold passSpot
    simp only at h ⊢
    split_ifs at h ⊢
    · exact location_passPoint fun p hp => h p (List.mem_append_right _ hp)
    · exact location_pass (h s.point (List.mem_singleton_self _))

theorem place_passNode {a : Attributes} (h : a.IsExplicit) :
    (c.passNode a).1 = (d.passNode a).1 := by
  have hlocation : (c.passSpot a.location).1 = (d.passSpot a.location).1 :=
    location_passSpot fun p hp =>
      h p (List.mem_append_left _ (List.mem_append_left _ hp))
  have hstart : ((c.passSpot a.location).2.passSpot a.start).1 =
      ((d.passSpot a.location).2.passSpot a.start).1 :=
    location_passSpot fun p hp =>
      h p (List.mem_append_left _ (List.mem_append_right _ hp))
  exact congrArg₂ Place.mk hlocation hstart

end Cursor

mutual

theorem findings_survey {s : Surroundings} {c d : Cursor} :
    (n : Node) → (∀ a ∈ n.inOrder, a.IsExplicit) → (survey s c n).1 = (survey s d n).1
  | .null, _ => rfl
  | .mk a children, h => by
    have hplace : (c.passNode a).1 = (d.passNode a).1 :=
      Cursor.place_passNode (h a List.mem_cons_self)
    have ih : (surveyAll (s.below a) (c.passNode a).2 children).1 =
        (surveyAll (s.below a) (d.passNode a).2 children).1 :=
      findings_surveyAll children fun b hb => h b (List.mem_cons_of_mem _ hb)
    exact congrArg₂ (report s a children) hplace ih

theorem findings_surveyAll {s : Surroundings} {c d : Cursor} :
    (ns : List Node) → (∀ a ∈ inOrderAll ns, a.IsExplicit) →
      (surveyAll s c ns).1 = (surveyAll s d ns).1
  | [], _ => rfl
  | n :: ns, h => by
    have hfirst : (survey s c n).1 = (survey s d n).1 :=
      findings_survey n fun a ha => h a (List.mem_append_left _ ha)
    have hothers : (surveyAll s (survey s c n).2 ns).1 = (surveyAll s (survey s d n).2 ns).1 :=
      findings_surveyAll ns fun a ha => h a (List.mem_append_right _ ha)
    exact congrArg₂ (· ++ ·) hfirst hothers

end

/-! ## Exchanging two neighbours -/

/-- The nodes `x` and `y` stand next to each other somewhere, and change places. -/
inductive Exchange (x y : Node) : List Node → List Node → Prop
  | here (ns : List Node) : Exchange x y (x :: y :: ns) (y :: x :: ns)
  | later (n : Node) {ns ms : List Node} : Exchange x y ns ms → Exchange x y (n :: ns) (n :: ms)
  | inside (a : Attributes) (ns : List Node) {cs ds : List Node} :
      Exchange x y cs ds → Exchange x y (.mk a cs :: ns) (.mk a ds :: ns)

structure Node.IsPlainSpecialization (n : Node) : Prop where
  role : n.attrs?.any (·.hasRole .specialization)
  plain : ∀ a ∈ n.inOrder, ¬a.hasRole .classTemplate ∧ ¬a.hasRole .construction

theorem argumentTexts?_of_isPlainSpecialization {n : Node} (h : n.IsPlainSpecialization) :
    argumentTexts? n = some [] := by
  cases n with
  | null => exact absurd h.role (by decide)
  | mk a children =>
    have hkind : a.kind = "ClassTemplateSpecializationDecl" := by
      simpa [hasRole, Role.kinds, Node.attrs?] using h.role
    rw [argumentTexts?, if_neg (by rw [hkind]; decide)]

theorem tour_eq_nil {α : Type} {f g : Visit → List α} {n : Node}
    (h : ∀ v : Visit, v.attrs ∈ n.inOrder → f v = [] ∧ g v = []) (above : List Attributes)
    (c : Cursor) : tour f g above c n = [] := by
  have hflat : (tour (fun v => [v]) (fun _ => []) above c n).flatMap (fun v => f v ++ g v) =
      tour (fun v => f v ++ g v) (fun _ => []) above c n := by
    simp only [flatMap_tour, List.flatMap_singleton, List.flatMap_nil]
  apply List.Perm.eq_nil
  refine (tour_perm f g above c n).trans (.of_eq ?_)
  rw [← hflat, List.flatMap_eq_nil_iff]
  intro v hv
  obtain ⟨hf, hg⟩ := h v (mem_inOrder_of_mem_tour n hv).1
  rw [hf, hg]
  rfl

structure Findings.IsPlain (f : Findings) : Prop where
  eq : f = { specializations := f.specializations, partials := f.partials, hasGap := f.hasGap }

theorem Findings.isPlain_of_eq_nil {f : Findings} (hcalls : f.constructions = [])
    (htemplates : f.templates = []) (hinjected : f.injected = none) (hparams : f.params = [])
    (hrecord : f.record = none) : f.IsPlain := by
  cases f
  constructor
  simp_all

theorem isPlain_survey {n : Node} (h : n.IsPlainSpecialization)
    (above : List Attributes) (c : Cursor) : (survey (around above) c n).1.IsPlain := by
  have hcalls : (survey (around above) c n).1.constructions = [] := by
    rw [survey_eq_tour rfl (fun _ _ => rfl) Visit.constructions_finding above c n]
    exact tour_eq_nil (fun v hv => ⟨if_neg (h.plain v.attrs hv).2, rfl⟩) above c
  have htemplates : (survey (around above) c n).1.templates = [] := by
    rw [survey_eq_tour rfl (fun _ _ => rfl) Visit.templates_finding above c n]
    exact tour_eq_nil (fun v hv => ⟨rfl, if_neg (h.plain v.attrs hv).1⟩) above c
  have hrole := h.role
  cases n with
  | null => exact absurd hrole (by decide)
  | mk a children =>
    have hrole : Role.ofKind a.kind = .specialization := by
      simpa [Node.attrs?, hasRole_eq] using hrole
    have hinjected : (survey (around above) c (.mk a children)).1.injected = none := by
      refine (injected_report (around above) a children (c.passNode a).1 _).trans ?_
      simp [isInjected, isRecord, hasRole_eq, hrole]
    have hparams : (survey (around above) c (.mk a children)).1.params = [] := by
      refine (params_report (around above) a children (c.passNode a).1 _).trans ?_
      simp [hasRole_eq, hrole]
    have hrecord : (survey (around above) c (.mk a children)).1.record = none := by
      apply Option.map_eq_none_iff.mp
      refine (record_report (around above) a children (c.passNode a).1 _).trans ?_
      simp [isWrittenRecord, hasRole_eq, hrole]
    exact Findings.isPlain_of_eq_nil hcalls htemplates hinjected hparams hrecord

theorem perm_exchange {α : Type} (as xs ys bs : List α) :
    (as ++ ys ++ xs ++ bs).Perm (as ++ xs ++ ys ++ bs) := by
  rw [List.append_assoc as ys xs, List.append_assoc as xs ys]
  exact (List.perm_append_comm.append_left as).append_right bs

/-- Two findings that differ in the order of specializations, `xs` and `ys` next to each other in
one order and in the other one, and in the order of partial ones. -/
structure Findings.Exchanged (xs ys : List (Named Specialization)) (f g : Findings) : Prop where
  same : g = { f with specializations := g.specializations, partials := g.partials }
  specializations : ∃ as bs, f.specializations = as ++ xs ++ ys ++ bs ∧
    g.specializations = as ++ ys ++ xs ++ bs
  partials : g.partials.Perm f.partials

namespace Findings.Exchanged

variable {xs ys : List (Named Specialization)} {f g : Findings}

theorem of_neighbours {f g : Findings} (hf : f.IsPlain) (hg : g.IsPlain) (e : Findings) :
    (f ++ (g ++ e)).Exchanged f.specializations g.specializations (g ++ (f ++ e)) := by
  have hgap : (g.hasGap || (f.hasGap || e.hasGap)) = (f.hasGap || (g.hasGap || e.hasGap)) :=
    Bool.or_left_comm _ _ _
  have hperm : (g.partials ++ (f.partials ++ e.partials)).Perm
      (f.partials ++ (g.partials ++ e.partials)) := by
    simpa using perm_exchange [] f.partials g.partials e.partials
  refine ⟨?_, ⟨[], e.specializations, ?_, ?_⟩, hperm⟩
  · rw [hf.eq, hg.eq]
    change Findings.mk _ _ _ _ _ _ _ (g.hasGap || (f.hasGap || e.hasGap)) = _
    rw [hgap]
    rfl
  · exact (List.append_assoc _ _ _).symm
  · exact (List.append_assoc _ _ _).symm

theorem append_left (e : Findings) (h : f.Exchanged xs ys g) :
    (e ++ f).Exchanged xs ys (e ++ g) := by
  obtain ⟨hsame, ⟨as, bs, hf, hg⟩, hpartials⟩ := h
  refine ⟨?_, ⟨e.specializations ++ as, bs, ?_, ?_⟩, hpartials.append_left e.partials⟩
  · rw [hsame]
    rfl
  · change e.specializations ++ f.specializations = _
    simp only [hf, List.append_assoc]
  · change e.specializations ++ g.specializations = _
    simp only [hg, List.append_assoc]

theorem append_right (e : Findings) (h : f.Exchanged xs ys g) :
    (f ++ e).Exchanged xs ys (g ++ e) := by
  obtain ⟨hsame, ⟨as, bs, hf, hg⟩, hpartials⟩ := h
  refine ⟨?_, ⟨as, bs ++ e.specializations, ?_, ?_⟩, hpartials.append_right e.partials⟩
  · rw [hsame]
    rfl
  · change f.specializations ++ e.specializations = _
    simp only [hf, List.append_assoc]
  · change g.specializations ++ e.specializations = _
    simp only [hg, List.append_assoc]

theorem report {cs ds : List Node} (hargs : argumentsOf? ds = argumentsOf? cs)
    (h : f.Exchanged xs ys g) (s : Surroundings) (a : Attributes) (here : Place) :
    (report s a cs here f).Exchanged xs ys (report s a ds here g) := by
  obtain ⟨hsame, ⟨as, bs, hf, hg⟩, hpartials⟩ := h
  have hinjected : g.injected = f.injected := by rw [hsame]
  unfold Dump.report
  rw [hargs]
  cases Role.ofKind a.kind with
  | specialization =>
    cases argumentsOf? cs with
    | none => exact ⟨by rw [hsame]; rfl, ⟨as, bs, hf, hg⟩, hpartials⟩
    | some args =>
      -- the node itself comes behind all that its children found
      let own : Named Specialization := ⟨s.fullName a.name, s.visibleName a.name, a.name,
        ⟨args, here.location, f.injected, s.inTemplate⟩⟩
      refine ⟨by rw [hsame]; rfl, ⟨as, bs ++ [own], ?_, ?_⟩, hpartials⟩
      · change f.specializations ++ [own] = _
        simp only [hf, List.append_assoc]
      · rw [hinjected]
        change g.specializations ++ [own] = _
        simp only [hg, List.append_assoc]
  | partialSpecialization =>
    refine ⟨by rw [hsame]; rfl, ⟨as, bs, hf, hg⟩, ?_⟩
    rw [hinjected]
    exact (hpartials.append_right _).append_right _
  | record =>
    cases a.isImplicit <;> exact ⟨by rw [hsame]; rfl, ⟨as, bs, hf, hg⟩, hpartials⟩
  | _ => exact ⟨by rw [hsame]; rfl, ⟨as, bs, hf, hg⟩, hpartials⟩

end Findings.Exchanged

section
variable {x y : Node} (hx : x.IsPlainSpecialization) (hy : y.IsPlainSpecialization)

include hx hy

theorem Exchange.argumentsOf?_eq {ns ms : List Node} (h : Exchange x y ns ms) :
    ms.isEmpty = ns.isEmpty ∧ argumentsOf? ms = argumentsOf? ns := by
  induction h with
  | here ns =>
    refine ⟨rfl, ?_⟩
    simp only [argumentsOf?, argumentTexts?_of_isPlainSpecialization hx,
      argumentTexts?_of_isPlainSpecialization hy]
  | later n _ ih =>
    refine ⟨rfl, ?_⟩
    simp only [argumentsOf?, ih.2]
  | inside a ns _ ih =>
    refine ⟨rfl, ?_⟩
    simp only [argumentsOf?, argumentTexts?, ih.1, ih.2]

theorem surveyAll_exchange {ns ms : List Node} (h : Exchange x y ns ms)
    (hns : ∀ a ∈ inOrderAll ns, a.IsExplicit) (above : List Attributes) (c : Cursor) :
    ∃ path, (surveyAll (around above) c ns).1.Exchanged
      (survey (around path) {} x).1.specializations (survey (around path) {} y).1.specializations
      (surveyAll (around above) c ms).1 := by
  induction h generalizing above c with
  | here ns =>
    -- no part depends on the cursor, so both orders put the same three parts together
    have hxs : ∀ d, (survey (around above) d x).1 = (survey (around above) {} x).1 := fun d =>
      findings_survey x fun a ha => hns a (List.mem_append_left _ ha)
    have hys : ∀ d, (survey (around above) d y).1 = (survey (around above) {} y).1 := fun d =>
      findings_survey y fun a ha => hns a (List.mem_append_right _ (List.mem_append_left _ ha))
    have hrest : ∀ d, (surveyAll (around above) d ns).1 = (surveyAll (around above) {} ns).1 :=
      fun d => findings_surveyAll ns fun a ha =>
        hns a (List.mem_append_right _ (List.mem_append_right _ ha))
    have hfound : (surveyAll (around above) c (x :: y :: ns)).1 =
        (survey (around above) {} x).1 ++ ((survey (around above) {} y).1 ++
          (surveyAll (around above) {} ns).1) := by
      rw [← hxs c, ← hys, ← hrest]
      rfl
    have hfound' : (surveyAll (around above) c (y :: x :: ns)).1 =
        (survey (around above) {} y).1 ++ ((survey (around above) {} x).1 ++
          (surveyAll (around above) {} ns).1) := by
      rw [← hys c, ← hxs, ← hrest]
      rfl
    rw [hfound, hfound']
    exact ⟨above, .of_neighbours (isPlain_survey hx above {}) (isPlain_survey hy above {}) _⟩
  | @later n ns ms h ih =>
    have hrest := fun a ha => hns a (List.mem_append_right _ ha)
    obtain ⟨path, hpath⟩ := ih hrest above (survey (around above) c n).2
    exact ⟨path, hpath.append_left (survey (around above) c n).1⟩
  | @inside a ns cs ds h ih =>
    have hinner : ∀ b ∈ inOrderAll cs, b.IsExplicit := fun b hb =>
      hns b (List.mem_append_left _ (List.mem_cons_of_mem _ hb))
    have hrest := fun b hb => hns b (List.mem_append_right _ hb)
    obtain ⟨path, hpath⟩ := ih hinner (above ++ [a]) (c.passNode a).2
    rw [around_concat] at hpath
    have hnode := hpath.report (h.argumentsOf?_eq hx hy).2 (around above) a (c.passNode a).1
    -- the cursor behind the node may differ, what is found in the others does not
    have hothers : (surveyAll (around above) (survey (around above) c (.mk a ds)).2 ns).1 =
        (surveyAll (around above) (survey (around above) c (.mk a cs)).2 ns).1 :=
      findings_surveyAll ns hrest
    have hms : (surveyAll (around above) c (.mk a ds :: ns)).1 =
        (survey (around above) c (.mk a ds)).1 ++
          (surveyAll (around above) (survey (around above) c (.mk a cs)).2 ns).1 := by
      rw [← hothers]
      rfl
    rw [hms]
    exact ⟨path, hnode.append_right _⟩

end

end TemplateCensus.Dump
