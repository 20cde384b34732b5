import TemplateCensus.Proofs.Dump.Accesses
import TemplateCensus.Proofs.Json.Value

/-! Dumps with a node missing where an argument of a specialization is looked for. They are the only
dumps of a whole unit that cannot be read: a node missing anywhere else leaves no trace, and
whatever else a node lacks, it is read without it. -/

namespace TemplateCensus.Dump

open Json

/-! ## Incomplete argument lists -/

/-- Children with a node missing among them, or among those of a template argument with neither a
type nor a value. -/
inductive Incomplete : List Node → Prop
  | here {ns : List Node} (h : .null ∈ ns) : Incomplete ns
  | inside {a : Attributes} {children ns : List Node} (h : .mk a children ∈ ns)
    (hkind : a.kind = "TemplateArgument") (htype : a.type = none) (hvalue : a.value = "")
    (hchildren : Incomplete children) : Incomplete ns

theorem Incomplete.mono {ns ms : List Node} (h : Incomplete ns) (hsub : ns ⊆ ms) :
    Incomplete ms := by
  cases h with
  | here h => exact .here (hsub h)
  | inside h hkind htype hvalue hchildren => exact .inside (hsub h) hkind htype hvalue hchildren

theorem argumentTexts?_eq_none {a : Attributes} {children : List Node} :
    argumentTexts? (.mk a children) = none ↔ a.kind = "TemplateArgument" ∧ a.type = none ∧
      a.value = "" ∧ argumentsOf? children = none := by
  rw [argumentTexts?, argumentKind]
  cases htype : a.type <;> cases children <;> by_cases hkind : a.kind = "TemplateArgument" <;>
    by_cases hvalue : a.value = "" <;> simp [hkind, hvalue, argumentsOf?]

theorem argumentsOf?_eq_none {ns : List Node} :
    argumentsOf? ns = none ↔ ∃ n ∈ ns, argumentTexts? n = none := by
  induction ns with
  | nil => simp [argumentsOf?]
  | cons n ns ih =>
    simp only [argumentsOf?, List.mem_cons, exists_eq_or_imp, ← ih]
    cases argumentTexts? n <;> cases argumentsOf? ns <;> simp

mutual

theorem incomplete_of_argumentTexts? : (n : Node) → argumentTexts? n = none →
    ∀ {ns : List Node}, n ∈ ns → Incomplete ns
  | .null, _, _, hn => .here hn
  | .mk _ children, h, _, hn => by
    obtain ⟨hkind, htype, hvalue, hchildren⟩ := argumentTexts?_eq_none.mp h
    exact .inside hn hkind htype hvalue (incomplete_of_argumentsOf? children hchildren)

theorem incomplete_of_argumentsOf? : (ns : List Node) → argumentsOf? ns = none → Incomplete ns
  | [], h => nomatch h
  | n :: ns, h => by
    cases hn : argumentTexts? n with
    | none => exact incomplete_of_argumentTexts? n hn List.mem_cons_self
    | some xs =>
      have hns : argumentsOf? ns = none := by
        rw [argumentsOf?, hn] at h
        cases hns : argumentsOf? ns with
        | none => rfl
        | some ys => simp [hns] at h
      exact (incomplete_of_argumentsOf? ns hns).mono (List.subset_cons_self n ns)

end

theorem argumentsOf?_eq_none_iff {ns : List Node} : argumentsOf? ns = none ↔ Incomplete ns := by
  refine ⟨incomplete_of_argumentsOf? ns, fun h => ?_⟩
  induction h with
  | here h => exact argumentsOf?_eq_none.mpr ⟨_, h, rfl⟩
  | inside h hkind htype hvalue _ ih =>
    exact argumentsOf?_eq_none.mpr ⟨_, h, argumentTexts?_eq_none.mpr ⟨hkind, htype, hvalue, ih⟩⟩

def Node.HasHole (root : Node) : Prop :=
  ∃ p v, root.visit? p = some v ∧ v.attrs.kind = "ClassTemplateSpecializationDecl" ∧
    Incomplete v.children

theorem Visit.hasGap_iff (v : Visit) : v.hasGap ↔
    v.attrs.kind = "ClassTemplateSpecializationDecl" ∧ Incomplete v.children := by
  rw [← argumentsOf?_eq_none_iff, hasGap, Bool.and_eq_true, Option.isNone_iff_eq_none]
  simp [Attributes.hasRole, Role.kinds]

theorem Node.hasGap_found_iff (root : Node) : root.found.hasGap ↔ root.HasHole := by
  simp only [Node.hasGap_found, List.any_eq_true, Visit.hasGap_iff, Node.mem_visits_iff, HasHole]
  constructor
  · rintro ⟨v, ⟨p, hp⟩, h⟩
    exact ⟨p, v, hp, h⟩
  · rintro ⟨p, v, hp, h⟩
    exact ⟨v, ⟨p, hp⟩, h⟩

instance (root : Node) : Decidable root.HasHole := decidable_of_iff _ root.hasGap_found_iff

/-! ## Missing nodes left out -/

mutual

def Node.pruned : Node → Node
  | .null => .null
  | .mk a children => .mk a (prunedAll children)

def prunedAll : List Node → List Node
  | [] => []
  | .null :: ns => prunedAll ns
  | .mk a children :: ns => (Node.mk a children).pruned :: prunedAll ns

end

theorem argumentsOf?_cons {n : Node} {ns : List Node} (h : (argumentsOf? (n :: ns)).isSome) :
    (argumentTexts? n).isSome ∧ (argumentsOf? ns).isSome := by
  rw [argumentsOf?] at h
  cases hfirst : argumentTexts? n <;> cases hothers : argumentsOf? ns <;>
    simp [hfirst, hothers] at h ⊢

theorem argumentTexts?_closed {a : Attributes}
    (h : ¬(a.kind = "TemplateArgument" ∧ a.type = none ∧ a.value = "")) (ns ms : List Node) :
    argumentTexts? (.mk a ns) = argumentTexts? (.mk a ms) := by
  rw [argumentTexts?, argumentTexts?, argumentKind]
  cases htype : a.type <;> by_cases hkind : a.kind = "TemplateArgument" <;>
    by_cases hvalue : a.value = "" <;> simp_all

mutual

theorem argumentTexts?_pruned : (n : Node) → (argumentTexts? n).isSome →
    argumentTexts? n.pruned = argumentTexts? n
  | .null, h => nomatch h
  | .mk a children, h => by
    rw [Node.pruned]
    by_cases hopen : a.kind = "TemplateArgument" ∧ a.type = none ∧ a.value = ""
    · have hchildren : (argumentsOf? children).isSome := by
        rw [Option.isSome_iff_ne_none]
        intro hnone
        rw [argumentTexts?_eq_none.mpr ⟨hopen.1, hopen.2.1, hopen.2.2, hnone⟩] at h
        exact nomatch h
      have ih := argumentsOf?_prunedAll children hchildren
      have hempty : (prunedAll children).isEmpty = children.isEmpty := by
        cases children with
        | nil => rfl
        | cons n ns =>
          cases n with
          | null => exact nomatch (argumentsOf?_cons hchildren).1
          | mk _ _ => rfl
      rw [argumentTexts?, argumentTexts?, ih, hempty]
    · exact argumentTexts?_closed hopen _ _

theorem argumentsOf?_prunedAll : (ns : List Node) → (argumentsOf? ns).isSome →
    argumentsOf? (prunedAll ns) = argumentsOf? ns
  | [], _ => rfl
  | .null :: _, h => nomatch (argumentsOf?_cons h).1
  | .mk a children :: ns, h => by
    obtain ⟨hfirst, hothers⟩ := argumentsOf?_cons h
    rw [prunedAll, argumentsOf?, argumentsOf?, argumentTexts?_pruned _ hfirst,
      argumentsOf?_prunedAll ns hothers]

end

theorem report_prunedAll (s : Surroundings) {a : Attributes} {ns : List Node}
    (h : a.hasRole .specialization → (argumentsOf? ns).isSome) (here : Place) (inner : Findings) :
    report s a (prunedAll ns) here inner = report s a ns here inner := by
  unfold report
  cases hrole : Role.ofKind a.kind with
  | specialization =>
    have hspec : a.hasRole .specialization := by
      rw [Attributes.hasRole_eq (by decide)]
      exact decide_eq_true hrole
    rw [argumentsOf?_prunedAll ns (h hspec)]
  | _ => rfl

theorem Visit.isSome_of_not_hasGap {v : Visit} (h : ¬v.hasGap) :
    v.attrs.hasRole .specialization → (argumentsOf? v.children).isSome := by
  intro hrole
  rw [hasGap, hrole, Bool.true_and] at h
  simpa [Option.isSome_iff_ne_none] using h

mutual

theorem survey_pruned (s : Surroundings) {above : List Attributes} {c : Cursor} :
    (n : Node) → (∀ v ∈ tour (fun v => [v]) (fun _ => []) above c n, ¬v.hasGap) →
      ∀ d, survey s d n.pruned = survey s d n
  | .null, _, _ => rfl
  | .mk a children, h, d => by
    rw [tour, List.append_nil, List.singleton_append, List.forall_mem_cons] at h
    have ih := surveyAll_prunedAll (s.below a) children h.2 (d.passNode a).2
    have hreport := report_prunedAll s (Visit.isSome_of_not_hasGap h.1)
    simp only [Node.pruned, survey, ih, hreport]

/-- Nodes that are missing where no argument is looked for make no difference. -/
theorem surveyAll_prunedAll (s : Surroundings) {above : List Attributes} {c : Cursor} :
    (ns : List Node) → (∀ v ∈ visits above c ns, ¬v.hasGap) →
      ∀ d, surveyAll s d (prunedAll ns) = surveyAll s d ns
  | [], _, _ => rfl
  | .null :: ns, h, d => by
    have hothers := surveyAll_prunedAll s ns h d
    rw [prunedAll, hothers]
    rfl
  | .mk a children :: ns, h, d => by
    rw [visits, tourAll, List.forall_mem_append] at h
    have hfirst := survey_pruned s (.mk a children) h.1 d
    have hothers := surveyAll_prunedAll s ns h.2
    simp only [prunedAll, surveyAll, hfirst, hothers]

end

theorem ofNode_pruned (main : String) {root : Node} (h : ¬root.HasHole) :
    ofNode main root.pruned = ofNode main root := by
  cases root with
  | null => rfl
  | mk a children =>
    have hgap : ∀ v ∈ visits [] {} children, ¬v.hasGap := by
      intro v hv hgap
      rw [← Node.hasGap_found_iff, Node.hasGap_found] at h
      exact h (List.any_eq_true.mpr ⟨v, hv, hgap⟩)
    have hsurvey := surveyAll_prunedAll {} children hgap {}
    rw [Node.pruned, ofNode, ofNode, hsurvey]

/-! ## Dumps that can be read -/

section
variable {main : String} {root : Node}

theorem ofNode_eq_gap_iff (hroot : root.attrs?.any (·.kind = "TranslationUnitDecl")) :
    ofNode main root = .error .gap ↔ root.HasHole := by
  rw [← Node.hasGap_found_iff]
  cases root with
  | null => exact nomatch hroot
  | mk a children =>
    have hkind : a.kind = rootKind := of_decide_eq_true hroot
    simp only [ofNode, Node.found, hkind, if_true]
    split_ifs with hgap <;> simp [hgap]

theorem analyseAt?_of_hasHole (headers : Option HeaderTable) (h : root.HasHole) :
    analyseAt? main headers root = none := by
  have hgap : root.visits.any Visit.hasGap := by
    rw [← Node.hasGap_found]
    exact (Node.hasGap_found_iff root).mpr h
  unfold Visit.hasGap at hgap
  simp only [analyseAt?, argumentsAt?_eq, hgap, if_true]

theorem exists_analyseAt? (headers : Option HeaderTable) (tr : Trace)
    (hroot : root.attrs?.any (·.kind = "TranslationUnitDecl")) (h : ¬root.HasHole) :
    ∃ s, ofNode main root = .ok s ∧ analyseAt? main headers root = some (s,
      headers.elim (s.unit.census tr).registry (s.unit.census tr).registry.canonicalize) := by
  rw [← Node.hasGap_found_iff] at h
  have hgap : ¬root.visits.any Visit.hasGap := by rwa [← Node.hasGap_found]
  unfold Visit.hasGap at hgap
  cases root with
  | null => exact nomatch hroot
  | mk a children =>
    have hkind : a.kind = rootKind := of_decide_eq_true hroot
    refine ⟨_, by rw [ofNode, if_pos hkind, ← Node.found, if_neg h], ?_⟩
    simp only [analyseAt?, argumentsAt?_eq, hgap, Tables.attachAt?_eq,
      SourceUnit.registryAt?_eq _ headers tr, Option.bind_eq_bind, Option.bind_some]
    rfl

end

/-- A dump of a whole unit fails in exactly one case: an argument of a specialization is missing. In
every other case it is read, missing nodes or not, and every access on the way from the tree to the
registry succeeds. -/
theorem fails_iff_hole (main : String) {text : String} {v : Json} {rest : List Char} {root : Node}
    (htext : readFirst text = .value v rest) (hnode : node? v = some root)
    (hroot : root.attrs?.any (·.kind = "TranslationUnitDecl")) (headers : Option HeaderTable)
    (tr : Trace) :
    (ofText main text = .error .gap ↔ root.HasHole) ∧
    (analyseAt? main headers root = none ↔ root.HasHole) ∧
    (¬root.HasHole → ∃ s, ofText main text = .ok s ∧ ofNode main root.pruned = .ok s ∧
      analyseAt? main headers root = some (s,
        headers.elim (s.unit.census tr).registry (s.unit.census tr).registry.canonicalize)) := by
  have hread : ofText main text = ofNode main root := by
    rw [ofText_of_readFirst htext, ofJson, hnode]
  rw [hread]
  refine ⟨ofNode_eq_gap_iff hroot, ⟨?_, analyseAt?_of_hasHole headers⟩, fun hhole => ?_⟩
  · intro hfail
    refine Decidable.byContradiction fun hhole => ?_
    obtain ⟨s, -, hs⟩ := exists_analyseAt? headers tr hroot hhole
    rw [hfail] at hs
    exact nomatch hs
  · obtain ⟨s, hs, hrun⟩ := exists_analyseAt? headers tr hroot hhole
    exact ⟨s, hs, (ofNode_pruned main hhole).trans hs, hrun⟩

def packText : String :=
  "\x7b\"kind\":\"TranslationUnitDecl\",\"inner\":[" ++
    "\x7b\"kind\":\"ClassTemplateSpecializationDecl\",\"inner\":[" ++
    "\x7b\"kind\":\"TemplateArgument\",\"inner\":[null]\x7d]\x7d]\x7d"

def packJson : Json :=
  .object [("kind", .string "TranslationUnitDecl"),
    ("inner", .array [.object [("kind", .string "ClassTemplateSpecializationDecl"),
      ("inner", .array [.object [("kind", .string "TemplateArgument"),
        ("inner", .array [.null])]])]])]

def nullsText : String :=
  "\x7b\"kind\":\"TranslationUnitDecl\",\"inner\":[null,\x7b\"inner\":[null]\x7d]\x7d"

def nullsJson : Json :=
  .object [("kind", .string "TranslationUnitDecl"),
    ("inner", .array [.null, .object [("inner", .array [.null])]])]

theorem fails_iff_hole_pack : ofText "main.cc" packText = .error .gap ∧
    ∃ s, ofText "main.cc" nullsText = .ok s := by
  have hpacks : readFirst packText = .value packJson [] := by decide +kernel
  have hnulls : readFirst nullsText = .value nullsJson [] := by decide +kernel
  have hpack := fails_iff_hole "main.cc" hpacks rfl rfl none {}
  have hnull := fails_iff_hole "main.cc" hnulls rfl rfl none {}
  constructor
  · exact hpack.1.mpr (by decide)
  · obtain ⟨s, hs, -⟩ := hnull.2.2 (by decide)
    exact ⟨s, hs⟩

end TemplateCensus.Dump
