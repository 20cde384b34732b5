import TemplateCensus.Proofs.Dump.Tables
import TemplateCensus.Proofs.Source.Location

/-! Instantiation or specialization. The name that a class injects into itself gives away what a
specialization was generated from: the first implicit record inside it, those of records in between
left out. A partial specialization at that place, wherever it stands in the dump, or a place that is
the specialization's own, speaks against the class template. -/

namespace TemplateCensus.Dump

open Spelling Attributes

/-! ## Injected names -/

def Attributes.isInjected (a : Attributes) : Bool := a.hasRole .record && a.isImplicit

namespace Visit

def below (v : Visit) : List Visit := visits (v.above ++ [v.attrs]) v.inside v.children

/-- Does the node inject a name, with no record around it other than the first `depth` nodes? -/
def injects (depth : Nat) (w : Visit) : Bool :=
  w.attrs.isInjected && (w.above.drop depth).all (!·.isRecord)

def injected? (v : Visit) : Option Location :=
  (v.below.filter (injects (v.above.length + 1))).findSome? location

def isListed (v : Visit) : Bool := v.above.getLast?.any (·.hasRole .classTemplate)

end Visit

theorem injected_report (s : Surroundings) (a : Attributes) (children : List Node) (here : Place)
    (inner : Findings) :
    (report s a children here inner).injected =
      if a.isInjected then here.location.or inner.injected
      else if a.isRecord then none else inner.injected := by
  unfold report isInjected isRecord isWrittenRecord
  cases h : Role.ofKind a.kind <;> simp only [hasRole_eq, h, ne_eq, reduceCtorEq,
    not_false_eq_true, decide_false, decide_true, Bool.false_and, Bool.true_and, Bool.or_false,
    Bool.or_true, Bool.false_eq_true, if_false, if_true]
  case record => cases a.isImplicit <;> rfl
  case specialization => cases argumentsOf? children <;> rfl
  all_goals rfl

mutual

theorem prefix_above_of_mem_tour {above : List Attributes} {c : Cursor} {w : Visit} :
    (n : Node) → w ∈ tour (fun v => [v]) (fun _ => []) above c n → above <+: w.above
  | .null, h => nomatch h
  | .mk a children, h => by
    rw [tour, List.append_nil, List.mem_append, List.mem_singleton] at h
    rcases h with rfl | h
    · exact List.prefix_refl above
    · exact (List.prefix_append above [a]).trans (prefix_above_of_mem_tourAll children h)

theorem prefix_above_of_mem_tourAll {above : List Attributes} {c : Cursor} {w : Visit} :
    (ns : List Node) → w ∈ tourAll (fun v => [v]) (fun _ => []) above c ns → above <+: w.above
  | [], h => nomatch h
  | n :: ns, h => by
    rcases List.mem_append.mp h with h | h
    · exact prefix_above_of_mem_tour n h
    · exact prefix_above_of_mem_tourAll ns h

end

theorem filter_injects_of_isRecord {depth : Nat} {above : List Attributes} {a : Attributes}
    (hdepth : depth ≤ above.length) (ha : a.isRecord) (c : Cursor) (ns : List Node) :
    (visits (above ++ [a]) c ns).filter (Visit.injects depth) = [] := by
  rw [List.filter_eq_nil_iff]
  intro w hw hinj
  obtain ⟨rest, hrest⟩ := prefix_above_of_mem_tourAll ns hw
  have hmem : a ∈ w.above.drop depth := by
    rw [← hrest, List.append_assoc, List.drop_append_of_le_length hdepth]
    simp
  have hall := List.all_eq_true.mp (Bool.and_eq_true_iff.mp hinj).2 a hmem
  simp [ha] at hall

theorem not_isInjected_of_isRecord {a : Attributes} (h : a.isRecord) : ¬a.isInjected := by
  unfold isRecord isWrittenRecord at h
  unfold isInjected
  cases hrole : Role.ofKind a.kind <;> simp_all [hasRole_eq]

mutual

theorem injected_survey {depth : Nat} (s : Surroundings) {above : List Attributes}
    (hdepth : depth ≤ above.length) (habove : (above.drop depth).all (!·.isRecord)) (c : Cursor) :
    (n : Node) → (survey s c n).1.injected =
      ((tour (fun v => [v]) (fun _ => []) above c n).filter (Visit.injects depth)).findSome?
        Visit.location
  | .null => rfl
  | .mk a children => by
    have hnode : (survey s c (.mk a children)).1.injected = _ :=
      injected_report s a children (c.passNode a).1
        (surveyAll (s.below a) (c.passNode a).2 children).1
    have hlen : depth ≤ (above ++ [a]).length := by
      rw [List.length_append]
      exact Nat.le_add_right_of_le hdepth
    have hself : Visit.injects depth ⟨above, c, a, children⟩ = a.isInjected := by
      rw [Visit.injects, habove, Bool.and_true]
    rw [hnode, tour, List.append_nil, List.singleton_append]
    -- a record keeps the names inside to itself; any other node comes before what is inside it
    by_cases ha : a.isRecord
    · have hinj := not_isInjected_of_isRecord ha
      have hinside := filter_injects_of_isRecord hdepth ha (c.passNode a).2 children
      rw [visits] at hinside
      rw [if_neg hinj, if_pos ha, List.filter_cons_of_neg (by rwa [hself]), hinside]
      rfl
    · have hall : ((above ++ [a]).drop depth).all (!·.isRecord) := by
        rw [List.drop_append_of_le_length hdepth, List.all_append, habove]
        simp [ha]
      have ih := injected_surveyAll (s.below a) hlen hall (c.passNode a).2 children
      by_cases hinj : a.isInjected
      · rw [if_pos hinj, List.filter_cons_of_pos (by rwa [hself]), List.findSome?_cons, ih]
        cases hloc : (c.passNode a).1.location <;> simp [Visit.location, hloc]
      · rw [if_neg hinj, if_neg ha, List.filter_cons_of_neg (by rwa [hself]), ih]

theorem injected_surveyAll {depth : Nat} (s : Surroundings) {above : List Attributes}
    (hdepth : depth ≤ above.length) (habove : (above.drop depth).all (!·.isRecord)) (c : Cursor) :
    (ns : List Node) → (surveyAll s c ns).1.injected =
      ((tourAll (fun v => [v]) (fun _ => []) above c ns).filter (Visit.injects depth)).findSome?
        Visit.location
  | [] => rfl
  | n :: ns => by
    have hadd : (surveyAll s c (n :: ns)).1.injected =
        (survey s c n).1.injected.or (surveyAll s (survey s c n).2 ns).1.injected := rfl
    rw [hadd, injected_survey s hdepth habove c n, survey_cursor,
      injected_surveyAll s hdepth habove _ ns, tourAll, List.filter_append, List.findSome?_append]

end

theorem inTemplate_below (s : Surroundings) (a : Attributes) :
    (s.below a).inTemplate = a.hasRole .classTemplate := by
  unfold Surroundings.below
  cases h : Role.ofKind a.kind <;> cases hi : a.isImplicit <;>
    simp [hasRole_eq, h, Surroundings.inside, Surroundings.plain]

namespace Visit

theorem injected_inner (v : Visit) : v.inner.injected = v.injected? := by
  have hlen : v.above.length + 1 = (v.above ++ [v.attrs]).length := by simp
  apply injected_surveyAll _ (Nat.le_of_eq hlen)
  rw [List.drop_eq_nil_of_le (Nat.le_of_eq hlen.symm)]
  rfl

theorem inTemplate_around (v : Visit) : (around v.above).inTemplate = v.isListed := by
  rw [isListed]
  rcases List.eq_nil_or_concat' v.above with h | ⟨above, a, h⟩
  · rw [h]
    rfl
  · rw [h, around_concat, inTemplate_below, List.getLast?_concat, Option.any_some]

theorem specialization?_eq (v : Visit) : v.specialization? =
    (argumentsOf? v.children).map fun args => ⟨args, v.location, v.injected?, v.isListed⟩ := by
  rw [specialization?, injected_inner, inTemplate_around]

end Visit

/-! ## The record of a spelling -/

theorem lastPart_isSuffix (k : String) : (lastPart k).toList <:+ k.toList := by
  have hk : k.toList = [':', ':'].intercalate ((scopeParts k).map String.toList) := by
    have h : (qualify (scopeParts k)).toList = _ := String.toList_intercalate
    rw [qualify_scopeParts] at h
    exact h
  rw [hk, ← dropLast_concat_lastPart k, List.map_append]
  exact isSuffix_intercalate_concat _ _ _

theorem namesRecord_of_template? {k name : String} {args : List String}
    (h : Spelling.template? (lastPart k) = some (name, args)) : namesRecord k := by
  have hlast := getLast?_of_template? h
  have hk : k.toList.getLast? = some '>' := by
    obtain ⟨p, hp⟩ := lastPart_isSuffix k
    rw [← hp, List.getLast?_append, hlast]
    rfl
  have hne : k ≠ "" := by
    rintro rfl
    cases hk
  simp [namesRecord, hk, hne]

theorem Tables.recordOf_of_template? {t : Tables} {k name : String} {args : List String}
    (hk : Spelling.template? (lastPart k) = some (name, args)) {d : ClassTemplate}
    (hd : t.template? (plainName k) = some d) {r : TemplatedRecord} (hr : d.record = some r) :
    t.recordOf k = some {
      name := name
      tag := r.tag
      args := args
      parent := d.parent
      pattern :=
        if t.isInstantiation d (plainName k) name args then some ⟨r, some d⟩ else none } := by
  rw [recordOf, if_pos (namesRecord_of_template? hk)]
  rw [plainName_of_template? hk] at hd ⊢
  rw [lastPart] at hk
  simp only [resolve, hk, hd, hr, ClassTemplate.pattern?, Option.map_some]
  split_ifs <;> rfl

/-! ## The verdict on a specialization -/

namespace Visit

/-- The specialization at the node follows a partial one: its name is injected where a partial
specialization of the dump stands, or injects its own name. -/
def FollowsPartial (root : Node) (v : Visit) : Prop :=
  ∃ l, v.injected? = some l ∧ ∃ p ∈ root.visits, p.attrs.hasRole .partialSpecialization ∧
    ∃ m, (p.location = some m ∨ p.injected? = some m) ∧ l.SamePlace m

/-- The specialization at the node is written out: it is not listed under a class template, and its
name is injected at its own place, which is not that of the templated record. -/
def StandsApart (v : Visit) (r : TemplatedRecord) : Prop :=
  ¬v.isListed ∧ ∃ l, v.injected? = some l ∧ (∃ m, v.location = some m ∧ l.SamePlace m) ∧
    ¬∃ m, r.location = some m ∧ l.SamePlace m

end Visit

theorem contains_partials_found {root : Node} {l : Location} :
    root.found.tables.partials.contains l.text ↔
      ∃ p ∈ root.visits, p.attrs.hasRole .partialSpecialization ∧
        ∃ m, (p.location = some m ∨ p.injected? = some m) ∧ l.SamePlace m := by
  rw [List.contains_iff_mem, Findings.tables, List.mem_map]
  constructor
  · rintro ⟨m, hm, htext⟩
    obtain ⟨p, hp, hrole, hplace⟩ := mem_partials_found.mp hm
    rw [p.injected_inner] at hplace
    exact ⟨p, hp, hrole, m, hplace, Location.text_eq_text_iff.mp htext.symm⟩
  · rintro ⟨p, hp, hrole, m, hplace, hsame⟩
    rw [← p.injected_inner] at hplace
    exact ⟨m, mem_partials_found.mpr ⟨p, hp, hrole, hplace⟩,
      (Location.text_eq_text_iff.mpr hsame).symm⟩

theorem isInstantiation_iff (root : Node) {v : Visit} {x : Specialization}
    (hx : v.specialization? = some x) {d : ClassTemplate} {r : TemplatedRecord}
    (hr : d.record = some r) :
    x.isInstantiation d root.found.tables.partials ↔
      ¬(v.FollowsPartial root ∨ v.StandsApart r) := by
  rw [v.specialization?_eq] at hx
  obtain ⟨args, -, rfl⟩ := Option.map_eq_some_iff.mp hx
  unfold Specialization.isInstantiation Visit.FollowsPartial Visit.StandsApart
  rcases hinj : v.injected? with _ | l
  · simp
  · simp only [Option.some.injEq, exists_eq_left']
    rw [← contains_partials_found]
    by_cases hpart : root.found.tables.partials.contains l.text
    · simp only [hpart, if_true, true_or, not_true, Bool.false_eq_true]
    · simp only [hpart, Bool.false_eq_true, if_false, false_or, hr, Option.any_some]
      -- positions are compared by their texts, which tell the places
      rw [← Location.textOf_eq_text_iff, ← Location.textOf_eq_text_iff]
      cases hlisted : v.isListed
      · by_cases hown : Location.textOf v.location = l.text
        · simp [hown]
        · simp [hown, Ne.symm hown]
      · simp

/-- A constructed type with arguments whose class template is found has a record. The record has
the templated record for its pattern if no specialization to choose from has its arguments, or if
the one that is chosen neither follows a partial specialization nor stands apart. -/
theorem pattern_told_by_injected_name {main : String} {root : Node} {s : Surveyed}
    (hs : ofNode main root = .ok s) {c : Construction} (hc : c ∈ s.constructions) {name : String}
    {args : List String} (hk : Spelling.template? (lastPart c.canonical) = some (name, args))
    {d : ClassTemplate} (hd : s.tables.template? (plainName c.canonical) = some d)
    {r : TemplatedRecord} (hr : d.record = some r) :
    ∃ rec, c.record = some rec ∧
      ((∀ x ∈ s.tables.candidates (plainName c.canonical) name, ¬matchArguments x.args args) →
        rec.pattern = some ⟨r, some d⟩) ∧
      ∀ x, s.tables.specialization? (plainName c.canonical) name args = some x →
        (∃ v ∈ root.visits, v.attrs.hasRole .specialization ∧ v.specialization? = some x) ∧
        ∀ v ∈ root.visits, v.attrs.hasRole .specialization → v.specialization? = some x →
          (v.FollowsPartial root ∨ v.StandsApart r → rec.pattern = none) ∧
          (¬(v.FollowsPartial root ∨ v.StandsApart r) → rec.pattern = some ⟨r, some d⟩) := by
  obtain ⟨-, -, htables, hcalls⟩ := ofNode_eq_ok hs
  rw [hcalls] at hc
  obtain ⟨b, -, rfl⟩ := List.mem_map.mp hc
  have hcanon : (s.tables.settle b).canonical = b.canonical := rfl
  rw [hcanon] at hk hd ⊢
  refine ⟨_, Tables.recordOf_of_template? hk hd hr, ?_, ?_⟩
  · intro hnone
    have hchosen : s.tables.specialization? (plainName b.canonical) name args = none :=
      select?_eq_none hnone
    simp [Tables.isInstantiation, hchosen]
  · intro x hx
    refine ⟨?_, ?_⟩
    · obtain ⟨hmem, -⟩ := of_select? hx
      obtain ⟨n, hn, -, rfl⟩ := Tables.mem_candidates.mp hmem
      rw [htables] at hn
      obtain ⟨v, hv, hrole, y, hy, rfl⟩ := mem_specializations_found.mp hn
      exact ⟨v, hv, hrole, hy⟩
    · intro v _ _ hvx
      have hverdict := isInstantiation_iff root hvx hr
      rw [← htables] at hverdict
      simp only [Tables.isInstantiation, hx, Option.all_some]
      refine ⟨fun h => ?_, fun h => ?_⟩
      · rw [if_neg (fun hyes => hverdict.mp hyes h)]
      · rw [if_pos (hverdict.mpr h)]

def boxDump : Node :=
  let header (line : Int) : Option Spot :=
    some (.mk ⟨some 0, "box.h", line, 27, "main.cc"⟩ none none)
  let injected (line : Int) : Node :=
    .mk { kind := "CXXRecordDecl", name := "Box", isImplicit := true, location := header line } []
  let listed (type : String) (line : Int) : Node :=
    .mk { kind := "ClassTemplateSpecializationDecl", name := "Box", location := header 1 } [
      .mk { kind := argumentKind, type := some ⟨type, ""⟩ } [], injected line]
  .mk { kind := rootKind } [
    .mk { kind := "ClassTemplateDecl", name := "Box", location := header 1 } [
      .mk { kind := "CXXRecordDecl", name := "Box", isComplete := true, location := header 1 } [
        injected 1],
      listed "int" 1,
      listed "int *" 2],
    .mk { kind := "ClassTemplatePartialSpecializationDecl", name := "Box", location := header 2 } [
      injected 2],
    .mk { kind := "CXXConstructExpr", type := some ⟨"Box<int *>", ""⟩ } []]

theorem pattern_told_by_injected_name_box :
    ∃ s c rec, ofNode "main.cc" boxDump = .ok s ∧ c ∈ s.constructions ∧
      c.canonical = "Box<int *>" ∧ c.record = some rec ∧ rec.pattern = none := by
  have hs : ∃ s, ofNode "main.cc" boxDump = .ok s := ⟨_, rfl⟩
  obtain ⟨s, hs⟩ := hs
  obtain ⟨-, -, htables, hcalls⟩ := ofNode_eq_ok hs
  let b : Construction := ⟨some ⟨"Box<int *>", ""⟩, none, none, []⟩
  let r : TemplatedRecord := ⟨"Box", "", true, some ⟨"box.h", 1, 27, "main.cc"⟩, []⟩
  let x : Specialization := ⟨["int *"], some ⟨"box.h", 1, 27, "main.cc"⟩,
    some ⟨"box.h", 2, 27, "main.cc"⟩, true⟩
  have hb : b ∈ boxDump.found.constructions := by decide +kernel
  have hc : s.tables.settle b ∈ s.constructions := by
    rw [hcalls]
    exact List.mem_map_of_mem hb
  have hcanon : (s.tables.settle b).canonical = "Box<int *>" := by
    have h : b.canonical = "Box<int *>" := by decide +kernel
    exact h
  have hd : s.tables.template? (plainName (s.tables.settle b).canonical) =
      some ⟨"Box", [], some ⟨"box.h", 1, 27, "main.cc"⟩, [], some r⟩ := by
    rw [hcanon, htables]
    decide +kernel
  have hk : Spelling.template? (lastPart (s.tables.settle b).canonical) =
      some ("Box", ["int *"]) := by
    rw [hcanon]
    decide +kernel
  have hx : s.tables.specialization? (plainName (s.tables.settle b).canonical) "Box" ["int *"] =
      some x := by
    rw [hcanon, htables]
    decide +kernel
  obtain ⟨rec, hrec, -, hchosen⟩ := pattern_told_by_injected_name hs hc hk hd rfl
  let v := boxDump.visits.get ⟨6, by decide +kernel⟩
  let p := boxDump.visits.get ⟨9, by decide +kernel⟩
  have hfollows : v.FollowsPartial boxDump :=
    ⟨⟨"box.h", 2, 27, "main.cc"⟩, by decide +kernel, p, List.get_mem _ _, by decide +kernel,
      ⟨"box.h", 2, 27, "main.cc"⟩, .inl (by decide +kernel), by decide⟩
  have hnone := ((hchosen x hx).2 v (List.get_mem _ _) (by decide +kernel)
    (by decide +kernel)).1 (.inl hfollows)
  exact ⟨s, s.tables.settle b, rec, hs, hc, hcanon, hrec, hnone⟩

end TemplateCensus.Dump
