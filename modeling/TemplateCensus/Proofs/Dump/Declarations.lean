import TemplateCensus.Proofs.Dump.Namesakes
import TemplateCensus.Proofs.Dump.Addresses

/-! Class templates at their addresses. Under every name the tables list the class templates of the
dump that go by it, each of them once, where its node ends. The children of that node alone decide
about its parameters and its record; what is further down, a nested template say, has no part in
them. -/

namespace TemplateCensus.Dump

/-! ## The record of a class template -/

def Node.isWrittenRecord (n : Node) : Bool := n.attrs?.any (·.isWrittenRecord)

def Visit.templatedRecord (v : Visit) : TemplatedRecord :=
  ⟨v.attrs.name, v.attrs.tag, v.attrs.isComplete, v.location, v.context⟩

theorem templatedRecord_surveyAll (above : List Attributes) (c : Cursor) (ns : List Node) :
    (surveyAll (around above) c ns).1.record =
      ((ns.findIdx? Node.isWrittenRecord).bind fun i => visitAmong? above c ns [i]).map
        Visit.templatedRecord := by
  induction ns generalizing c with
  | nil => rfl
  | cons n ns ih =>
    have hadd : (surveyAll (around above) c (n :: ns)).1.record =
        (survey (around above) c n).1.record.or
          (surveyAll (around above) (survey (around above) c n).2 ns).1.record := rfl
    -- a child that is no written record is passed over
    have hskip : n.isWrittenRecord = false →
        (((n :: ns).findIdx? Node.isWrittenRecord).bind
          fun i => visitAmong? above c (n :: ns) [i]) =
        (ns.findIdx? Node.isWrittenRecord).bind
          fun i => visitAmong? above (c.passAll n.inOrder) ns [i] := by
      intro h
      rw [List.findIdx?_cons, h, if_neg Bool.false_ne_true, Option.bind_map]
      rfl
    rw [hadd, ih, survey_cursor]
    cases n with
    | null => rw [hskip rfl]; rfl
    | mk a children =>
      have hn : (survey (around above) c (.mk a children)).1.record = if a.isWrittenRecord then
          some (Visit.templatedRecord ⟨above, c, a, children⟩) else none := by
        rw [Visit.templatedRecord, Visit.context, ← context_around]
        exact templatedRecord_report _ _ _ _ _
      rw [hn]
      cases hr : a.isWrittenRecord with
      | true =>
        have hfirst : (Node.mk a children :: ns).findIdx? Node.isWrittenRecord = some 0 := by
          rw [List.findIdx?_cons]
          simp [Node.isWrittenRecord, Node.attrs?, hr]
        rw [hfirst]
        rfl
      | false => rw [hskip hr]; rfl

/-- The record of the class template at an address: its first child that is a record written in the
source. -/
def Node.templatedRecord? (root : Node) (p : List Nat) : Option TemplatedRecord := do
  let v ← root.visit? p
  let i ← v.children.findIdx? Node.isWrittenRecord
  (root.visit? (p ++ [i])).map Visit.templatedRecord

theorem Node.record_of_visit? {root : Node} {p : List Nat} {v : Visit}
    (h : root.visit? p = some v) : v.template.record = root.templatedRecord? p := by
  have hrecord : v.template.record = _ :=
    templatedRecord_surveyAll (v.above ++ [v.attrs]) v.inside v.children
  rw [hrecord, templatedRecord?, h]
  simp only [visit?_concat h, Option.bind_eq_bind, Option.bind_some, Option.map_bind]
  rfl

/-! ## The class templates of a dump -/

/-- The class template that the node at an address declares. It describes its own record. -/
def Node.Declares (root : Node) (p : List Nat) (t : ClassTemplate) : Prop :=
  ∃ v, root.visit? p = some v ∧ v.attrs.kind = "ClassTemplateDecl" ∧ t.name = v.attrs.name ∧
    t.params = paramNames v.children ∧ t.location = v.location ∧ t.parent = v.context ∧
    t.record = root.templatedRecord? p ∧
    t.pattern? = (root.templatedRecord? p).map (⟨·, some t⟩)

theorem Attributes.hasRole_classTemplate_iff {a : Attributes} :
    a.hasRole .classTemplate ↔ a.kind = "ClassTemplateDecl" := by
  simp [hasRole, Role.kinds]

theorem Node.declares_of_visit? {root : Node} {p : List Nat} {v : Visit}
    (h : root.visit? p = some v) (hrole : v.attrs.hasRole .classTemplate) :
    root.Declares p v.template := by
  have hrecord := record_of_visit? h
  have hpattern : v.template.pattern? = (root.templatedRecord? p).map (⟨·, some v.template⟩) := by
    rw [ClassTemplate.pattern?, hrecord]
  exact ⟨v, h, Attributes.hasRole_classTemplate_iff.mp hrole, rfl, rfl, rfl, rfl, hrecord, hpattern⟩

theorem Tables.described_recordOf {t : Tables} {k : String} {r : RecordDecl}
    (h : t.recordOf k = some r) :
    r.described = none ∧
      (r.pattern = none ∨ ∃ q d, t.template? q = some d ∧ r.pattern = d.pattern?) := by
  unfold recordOf at h
  split_ifs at h
  obtain rfl := Option.some.inj h
  unfold resolve
  dsimp only
  split
  · exact ⟨rfl, .inl rfl⟩
  · split
    · exact ⟨rfl, .inl rfl⟩
    · next d hd =>
      split
      · exact ⟨rfl, .inl rfl⟩
      · split
        · exact ⟨rfl, .inr ⟨_, d, hd, rfl⟩⟩
        · exact ⟨rfl, .inl rfl⟩

/-- Under a name the tables of a dump that can be read list the class templates that it names in
full or as usually printed, each of them once, in the order in which they end. Of the records behind
calls, none is described by a class template itself, and their patterns are records of class
templates, described by those. -/
theorem templates_at_addresses (main : String) (root : Node) :
    ((∃ s, ofNode main root = .ok s) ↔ root.IsReadable) ∧
    ∀ s, ofNode main root = .ok s →
      (∀ q, ∃ ps, root.Enumerates true (fun v => v.attrs.kind = "ClassTemplateDecl" ∧
            (v.fullName = q ∨ v.visibleName = q)) ps ∧
          List.Forall₂ root.Declares ps (s.tables.templatesNamed q)) ∧
        ∀ c ∈ s.constructions, ∀ r, c.record = some r → r.described = none ∧
          ∀ π, r.pattern = some π → ∃ p t, root.Declares p t ∧ t.pattern? = some π ∧
            π.described = some t := by
  refine ⟨exists_ofNode_iff main root, fun s hs => ?_⟩
  have htables := (ofNode_eq_ok hs).2.2.1
  constructor
  · intro q
    have hq : ∀ v : Visit, (v.attrs.hasRole .classTemplate && v.answersTo q) ↔
        v.attrs.kind = "ClassTemplateDecl" ∧ (v.fullName = q ∨ v.visibleName = q) := by
      intro v
      simp [Visit.answersTo, Attributes.hasRole_classTemplate_iff]
    simp only [← hq]
    rw [htables, templatesNamed_found, Node.namesakes, root.endings_eq]
    refine root.exists_enumerates true fun p v hv hrole => ?_
    exact Node.declares_of_visit? hv (Bool.and_eq_true_iff.mp hrole).1
  · intro c hc r hr
    have hshows := shows_of_ofNode hs
    rw [hshows.constructions_eq] at hc
    obtain ⟨w, -, rfl⟩ := List.mem_map.mp hc
    obtain ⟨hdescribed, hpattern⟩ := Tables.described_recordOf hr
    refine ⟨hdescribed, fun π hπ => ?_⟩
    rcases hpattern with hnone | ⟨q, t, ht, hpattern⟩
    · rw [hnone] at hπ
      cases hπ
    obtain ⟨n, hn, rfl, -⟩ := Tables.exists_of_template? ht
    obtain ⟨v, hv, hrole, rfl⟩ := (hshows.mem_templates n).mp hn
    obtain ⟨p, hp⟩ := Node.mem_visits_iff.mp hv
    have hown : v.template.pattern? = some π := hpattern.symm.trans hπ
    obtain ⟨record, -, rfl⟩ := Option.map_eq_some_iff.mp hown
    exact ⟨p, v.template, Node.declares_of_visit? hp hrole, hown, rfl⟩

def innerTemplateDump : Node :=
  let header (line : Int) : Option Spot :=
    some (.mk ⟨some 0, "map.h", line, 3, "main.cc"⟩ none none)
  .mk { kind := rootKind } [
    .mk { kind := "NamespaceDecl" } [
      .mk { kind := "ClassTemplateDecl", name := "Map", location := header 4 } [
        .mk { kind := "TemplateTemplateParmDecl", name := "F" } [
          .mk { kind := "TemplateTypeParmDecl", name := "X" } []],
        .null,
        .mk { kind := "TemplateTypeParmDecl", name := "K" } [],
        .mk { kind := "CXXRecordDecl", name := "Map", tag := "class", isComplete := true } [
          .mk { kind := "CXXRecordDecl", name := "Map", isImplicit := true } [],
          .mk { kind := "ClassTemplateDecl", name := "Cell", location := header 7 } [
            .mk { kind := "NonTypeTemplateParmDecl", name := "N" } [],
            .mk { kind := "CXXRecordDecl", name := "Cell", tag := "struct" } []]]]],
    .mk { kind := "CXXConstructExpr", type := some ⟨"Map<Set, int>::Cell<3>", ""⟩ } []]

theorem templates_at_addresses_inner :
    ∃ s, ofNode "main.cc" innerTemplateDump = .ok s ∧
      (∃ ps : List (List Nat), ps.Nodup ∧ [0, 0, 3, 1] ∈ ps ∧ [0, 0] ∉ ps ∧
        ps.length = (s.tables.templatesNamed "Map::Cell").length) ∧
      ∃ c ∈ s.constructions, ∃ r, c.record = some r ∧ r.described = none ∧
        ∃ p t, innerTemplateDump.Declares p t ∧ r.pattern = t.pattern? := by
  have hs : ∃ s, ofNode "main.cc" innerTemplateDump = .ok s := ⟨_, rfl⟩
  obtain ⟨s, hs⟩ := hs
  obtain ⟨htemplates, hrecords⟩ := (templates_at_addresses _ _).2 s hs
  have hcall : (ofNode "main.cc" innerTemplateDump).toOption.any fun s =>
      s.constructions.any fun c => c.record.any (·.pattern.isSome) := by decide +kernel
  rw [hs] at hcall
  obtain ⟨c, hc, hr⟩ := List.any_eq_true.mp hcall
  obtain ⟨r, hr, hpattern⟩ := (Option.any_eq_true _ _).mp hr
  obtain ⟨π, hπ⟩ := Option.isSome_iff_exists.mp hpattern
  obtain ⟨hdescribed, hown⟩ := hrecords c hc r hr
  obtain ⟨p, t, hdecl, ht, -⟩ := hown π hπ
  refine ⟨s, hs, ?_, c, hc, r, hr, hdescribed, p, t, hdecl, hπ.trans ht.symm⟩
  obtain ⟨ps, henum, hps⟩ := htemplates "Map::Cell"
  have hinner : [0, 0, 3, 1] ∈ ps :=
    (henum.mem_iff _).mpr ⟨_, rfl, rfl, .inr (by decide +kernel)⟩
  have houter : [0, 0] ∉ ps := by
    rw [henum.mem_iff]
    rintro ⟨v, hv, -, hname⟩
    obtain rfl := Option.some.inj hv
    revert hname
    decide +kernel
  exact ⟨ps, henum.nodup, hinner, houter, hps.length_eq⟩

example : (innerTemplateDump.visit? [0, 0]).map (paramNames ·.children) = some ["F", "K"] ∧
    (innerTemplateDump.templatedRecord? [0, 0]).map (·.tag) = some "class" := by
  decide +kernel

end TemplateCensus.Dump
