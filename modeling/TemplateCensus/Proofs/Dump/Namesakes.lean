import TemplateCensus.Proofs.Dump.Discovery
import TemplateCensus.Proofs.Dump.Tables

/-! Class templates that answer to one name. Printed names leave out inline and anonymous
namespaces, so a template is known by two names, and the name that one template has in full may be
what another one is usually called. A look-up does not tell them apart: definitions come first, and
among them the one that ends first. -/

namespace TemplateCensus.Dump

def Visit.isDefined (v : Visit) : Bool := (templated? v.children).any (·.isComplete)

def Node.namesakes (root : Node) (q : String) : List Visit :=
  root.endings.filter fun v => v.attrs.hasRole .classTemplate && v.answersTo q

theorem Node.mem_namesakes {root : Node} {q : String} {v : Visit} :
    v ∈ root.namesakes q ↔
      v ∈ root.visits ∧ v.attrs.hasRole .classTemplate ∧
        (v.fullName = q ∨ v.visibleName = q) := by
  rw [namesakes, List.mem_filter, mem_endings, Bool.and_eq_true, Visit.answersTo, Bool.or_eq_true,
    decide_eq_true_iff, decide_eq_true_iff]

theorem templatesNamed_found (root : Node) (q : String) :
    root.found.tables.templatesNamed q = (root.namesakes q).map Visit.template := by
  have htemplates : root.found.tables.templates = _ := templates_found root
  rw [Tables.templatesNamed, htemplates, Node.namesakes, List.filter_map, List.map_map,
    List.filter_filter]
  congr 1
  apply List.filter_congr
  intro v _
  exact Bool.and_comm _ _

theorem preferred_map_template (vs : List Visit) :
    preferred (vs.map Visit.template) =
      ((vs.find? Visit.isDefined).or vs.head?).map Visit.template := by
  have hdefined : (fun v : Visit => v.template.record.any (·.isDefinition)) = Visit.isDefined := by
    funext v
    exact v.any_isDefinition_template
  rw [preferred, List.find?_map, List.head?_map, ← Option.map_or, ← hdefined]
  rfl

theorem exists_template?_found {root : Node} {q : String} (h : root.namesakes q ≠ []) :
    ∃ d, ((root.namesakes q).find? Visit.isDefined).or (root.namesakes q).head? = some d ∧
      root.found.tables.template? q = some d.template := by
  obtain ⟨v, vs, hvs⟩ := List.exists_cons_of_ne_nil h
  have hlookup : root.found.tables.template? q = preferred ((v :: vs).map Visit.template) := by
    rw [Tables.template?, templatesNamed_found, hvs]
    rfl
  rw [hlookup, preferred_map_template, hvs, List.head?_cons]
  cases (v :: vs).find? Visit.isDefined with
  | none => exact ⟨v, rfl, rfl⟩
  | some w => exact ⟨w, rfl, rfl⟩

theorem of_find?_or_head? {α : Type} {p : α → Bool} {xs : List α} {d : α}
    (h : (xs.find? p).or xs.head? = some d) :
    d ∈ xs ∧ (∀ e ∈ xs, p e → p d) ∧ ∀ f ∈ xs, (p d → p f) → f = d ∨ [d, f].Sublist xs := by
  -- in both cases the list is cut in front of the choice, and no element there would do
  have hcut : ∃ as bs, xs = as ++ d :: bs ∧ (∀ e ∈ xs, p e → p d) ∧ ∀ a ∈ as, ¬(p d → p a) := by
    rcases Option.or_eq_some_iff.mp h with h | ⟨hnone, h⟩
    · obtain ⟨hd, as, bs, rfl, has⟩ := List.find?_eq_some_iff_append.mp h
      refine ⟨as, bs, rfl, fun _ _ _ => hd, fun a ha hpa => ?_⟩
      simpa [hpa hd] using has a ha
    · obtain ⟨bs, rfl⟩ := List.head?_eq_some_iff.mp h
      exact ⟨[], bs, rfl, fun e he hpe => absurd hpe (List.find?_eq_none.mp hnone e he), nofun⟩
  obtain ⟨as, bs, rfl, hbest, has⟩ := hcut
  refine ⟨by simp, hbest, fun f hf hpf => ?_⟩
  rcases List.mem_append.mp hf with hf | hf
  · exact absurd hpf (has f hf)
  · rcases List.mem_cons.mp hf with rfl | hf
    · exact .inl rfl
    · have hpair : [d, f].Sublist (d :: bs) := (List.singleton_sublist.mpr hf).cons_cons d
      exact .inr (hpair.trans (List.sublist_append_right as _))

/-- The full name of a class template finds a class template known by it, with a definition if one
known by it has one. It is not called so in full only if it ends before all those that are, as far
as these have a definition when it has one itself. -/
theorem lookup_by_full_name {main : String} {root : Node} {s : Surveyed}
    (hs : ofNode main root = .ok s) {q : String} {f : Visit} (hf : f ∈ root.visits)
    (hrole : f.attrs.hasRole .classTemplate) (hq : f.fullName = q) :
    ∃ d ∈ root.visits, d.attrs.hasRole .classTemplate ∧
      s.tables.template? q = some d.template ∧ (d.fullName = q ∨ d.visibleName = q) ∧
      (∀ e ∈ root.visits, e.attrs.hasRole .classTemplate → e.fullName = q ∨ e.visibleName = q →
        e.isDefined → d.isDefined) ∧
      ∀ e ∈ root.visits, e.attrs.hasRole .classTemplate → e.fullName = q →
        (d.isDefined → e.isDefined) → d.fullName = q ∨ [d, e].Sublist root.endings := by
  have hmem : f ∈ root.namesakes q := Node.mem_namesakes.mpr ⟨hf, hrole, .inl hq⟩
  obtain ⟨d, hd, hlookup⟩ := exists_template?_found (List.ne_nil_of_mem hmem)
  rw [← (ofNode_eq_ok hs).2.2.1] at hlookup
  obtain ⟨hin, hbest, hfirst⟩ := of_find?_or_head? hd
  obtain ⟨hdin, hdrole, hdq⟩ := Node.mem_namesakes.mp hin
  refine ⟨d, hdin, hdrole, hlookup, hdq, ?_, ?_⟩
  · intro e he herole heq hdef
    exact hbest e (Node.mem_namesakes.mpr ⟨he, herole, heq⟩) hdef
  · intro e he herole heq hdef
    have hemem : e ∈ root.namesakes q := Node.mem_namesakes.mpr ⟨he, herole, .inl heq⟩
    rcases hfirst e hemem hdef with rfl | hsub
    · exact .inl heq
    · exact .inr (hsub.trans List.filter_sublist)

def namesakesDump : Node :=
  let main (line column : Int) : Option Spot :=
    some (.mk ⟨some 0, "main.cc", line, column, ""⟩ none none)
  let header (line column : Int) : Option Spot :=
    some (.mk ⟨some 0, "box.h", line, column, "main.cc"⟩ none none)
  let box (param : String) (place : Option Spot) : Node :=
    .mk { kind := "ClassTemplateDecl", name := "Box", location := place } [
      .mk { kind := "TemplateTypeParmDecl", name := param } [],
      .mk { kind := "CXXRecordDecl", name := "Box", location := place, isComplete := true } []]
  .mk { kind := rootKind } [
    .mk { kind := "NamespaceDecl", location := main 1 1 } [box "T" (main 1 38)],
    box "U" (header 1 26),
    .mk { kind := "CXXConstructExpr", start := main 3 23,
          type := some ⟨"::Box<int>", "Box<int>"⟩ } []]

theorem lookup_by_full_name_namesakes :
    ∃ s, ofNode "main.cc" namesakesDump = .ok s ∧
      ∃ d ∈ namesakesDump.visits, d.attrs.hasRole .classTemplate ∧
        s.tables.template? "Box" = some d.template ∧ d.isDefined := by
  have hs : ∃ s, ofNode "main.cc" namesakesDump = .ok s := ⟨_, rfl⟩
  obtain ⟨s, hs⟩ := hs
  let f := namesakesDump.visits.get ⟨4, by decide +kernel⟩
  have hf : f ∈ namesakesDump.visits := List.get_mem _ _
  have hrole : f.attrs.hasRole .classTemplate := by decide +kernel
  have hname : f.fullName = "Box" := by decide +kernel
  have hdefined : f.isDefined := by decide +kernel
  obtain ⟨d, hd, hdrole, hlookup, -, hbest, -⟩ := lookup_by_full_name hs hf hrole hname
  exact ⟨s, hs, d, hd, hdrole, hlookup, hbest f hf hrole (.inl hname) hdefined⟩

/-- Both templates have a definition, and only the second one is called `Box` in full; the look-up
returns the first one, and the call has no entry, since that one is declared in the main file. -/
theorem full_name_misses_template :
    ∃ s, ofNode "main.cc" namesakesDump = .ok s ∧
      (∃ f ∈ namesakesDump.visits, f.attrs.hasRole .classTemplate ∧ f.fullName = "Box" ∧
        f.isDefined) ∧
      (∀ f ∈ namesakesDump.visits, f.attrs.hasRole .classTemplate → f.fullName = "Box" →
        s.tables.template? "Box" ≠ some f.template) ∧
      (s.tables.template? "Box").isSome ∧
      (s.unit.census {}).registry.find? "Box<int>" = none := by
  have hs : ∃ s, ofNode "main.cc" namesakesDump = .ok s := ⟨_, rfl⟩
  obtain ⟨s, hs⟩ := hs
  have htables := (ofNode_eq_ok hs).2.2.1
  have hentry : ((ofNode "main.cc" namesakesDump).toOption.bind fun s =>
      (s.unit.census {}).registry.find? "Box<int>") = none := by decide +kernel
  rw [hs] at hentry
  let f := namesakesDump.visits.get ⟨4, by decide +kernel⟩
  refine ⟨s, hs, ⟨f, List.get_mem _ _, by decide +kernel, by decide +kernel, by decide +kernel⟩,
    ?_, ?_, hentry⟩
  · rw [htables]
    decide +kernel
  · rw [htables]
    decide +kernel

end TemplateCensus.Dump
