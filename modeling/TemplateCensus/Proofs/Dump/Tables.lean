import TemplateCensus.Proofs.Dump.Origin

/-! The tables of a dump, read off its nodes, and the choice among specializations that go by one
name: the first one that matches in full, or else the first one that matches at all. -/

namespace TemplateCensus.Dump

/-! ## From nodes to tables -/

def Node.endings : Node → List Visit
  | .null => []
  | .mk _ children => Dump.endings [] {} children

theorem Node.mem_endings {root : Node} {v : Visit} : v ∈ root.endings ↔ v ∈ root.visits := by
  cases root with
  | null => rfl
  | mk a children => exact (endings_perm [] {} children).mem_iff

def Node.found : Node → Findings
  | .null => {}
  | .mk _ children => (surveyAll {} {} children).1

theorem ofNode_eq_ok {main : String} {root : Node} {s : Surveyed} (h : ofNode main root = .ok s) :
    root.found.hasGap = false ∧ s.main = main ∧ s.tables = root.found.tables ∧
      s.constructions = root.found.constructions.map s.tables.settle := by
  have hshows := shows_of_ofNode h
  cases root with
  | null => cases h
  | mk a children =>
    have hcalls := hshows.constructions_eq
    simp only [ofNode] at h
    split_ifs at h with hkind hgap
    have htables : s.tables = (surveyAll {} {} children).1.tables := by
      cases h
      rfl
    refine ⟨Bool.eq_false_iff.mpr hgap, hshows.main_eq, htables, ?_⟩
    rw [hcalls, Node.found, constructions_surveyAll, List.map_map]
    rfl

theorem kind_of_ofNode {main : String} {a : Attributes} {children : List Node} {s : Surveyed}
    (h : ofNode main (.mk a children) = .ok s) : a.kind = rootKind := by
  simp only [ofNode] at h
  split_ifs at h with hkind
  exact hkind

theorem exists_ofNode (main : String) {a : Attributes} {children : List Node}
    (hkind : a.kind = rootKind) (hgap : (Node.mk a children).found.hasGap = false) :
    ∃ s, ofNode main (.mk a children) = .ok s := by
  rw [Node.found] at hgap
  simp only [ofNode, hkind, hgap, if_true, Bool.false_eq_true, if_false]
  exact ⟨_, rfl⟩

theorem templates_found (root : Node) :
    root.found.templates = (root.endings.filter (·.attrs.hasRole .classTemplate)).map
      fun v => v.named v.template := by
  cases root with
  | null => rfl
  | mk a children => exact templates_surveyAll children

theorem mem_specializations_found {root : Node} {n : Named Specialization} :
    n ∈ root.found.specializations ↔ ∃ v ∈ root.visits, v.attrs.hasRole .specialization ∧
      ∃ x, v.specialization? = some x ∧ v.named x = n := by
  have hfound : root.found.specializations = root.endings.flatMap fun v =>
      if v.attrs.hasRole .specialization then (v.specialization?.map v.named).toList else [] := by
    cases root with
    | null => rfl
    | mk a children => exact specializations_surveyAll children
  have hone : ∀ v : Visit, n ∈ (if v.attrs.hasRole .specialization then
      (v.specialization?.map v.named).toList else []) ↔ v.attrs.hasRole .specialization ∧
        ∃ x, v.specialization? = some x ∧ v.named x = n := by
    intro v
    cases v.attrs.hasRole .specialization <;> simp
  simp only [hfound, List.mem_flatMap, Node.mem_endings, hone]

theorem Visit.partials_finding (v : Visit) :
    v.finding.partials = [] ++ v.inner.partials ++
      (if v.attrs.hasRole .partialSpecialization then
        v.location.toList ++ v.inner.injected.toList else []) := by
  unfold finding report location
  cases h : Role.ofKind v.attrs.kind <;>
    simp [Attributes.hasRole_eq, h, Findings.apart, Findings.enclosed]
  case record => cases v.attrs.isImplicit <;> rfl
  case specialization => cases argumentsOf? v.children <;> rfl

theorem mem_partials_found {root : Node} {l : Location} :
    l ∈ root.found.partials ↔ ∃ v ∈ root.visits, v.attrs.hasRole .partialSpecialization ∧
      (v.location = some l ∨ v.inner.injected = some l) := by
  have hfound : root.found.partials = root.endings.flatMap fun v =>
      if v.attrs.hasRole .partialSpecialization then
        v.location.toList ++ v.inner.injected.toList else [] := by
    cases root with
    | null => rfl
    | mk a children =>
      rw [Node.endings, ← tourAll_end]
      exact surveyAll_eq_tourAll rfl (fun _ _ => rfl) Visit.partials_finding [] {} children
  have hone : ∀ v : Visit, l ∈ (if v.attrs.hasRole .partialSpecialization then
      v.location.toList ++ v.inner.injected.toList else []) ↔
        v.attrs.hasRole .partialSpecialization ∧
          (v.location = some l ∨ v.inner.injected = some l) := by
    intro v
    cases v.attrs.hasRole .partialSpecialization <;> simp
  simp only [hfound, List.mem_flatMap, Node.mem_endings, hone]

/-! ## Matching arguments -/

theorem matchArguments_self (args : List String) : matchArguments args args := by
  induction args with
  | nil => rfl
  | cons a args ih => simp [matchArguments, ih]

theorem length_le_of_matchArguments {rs as : List String} (h : matchArguments rs as) :
    as.length ≤ rs.length := by
  fun_induction matchArguments rs as with
  | case1 => exact Nat.zero_le _
  | case2 => cases h
  | case3 r rs a as ih =>
    have h := ih (Bool.and_eq_true_iff.mp h).2
    simpa using h

theorem eq_of_matchArguments {rs as : List String} (h : matchArguments rs as)
    (hlen : rs.length = as.length) (hknown : "" ∉ rs) : rs = as := by
  fun_induction matchArguments rs as with
  | case1 rs => exact List.eq_nil_of_length_eq_zero hlen
  | case2 => cases h
  | case3 r rs a as ih =>
    simp only [List.mem_cons, not_or, List.length_cons, Nat.add_right_cancel_iff] at hknown hlen
    simp only [Bool.and_eq_true, Bool.or_eq_true, decide_eq_true_eq] at h
    rw [ih h.2 hlen hknown.2, h.1.resolve_left (Ne.symm hknown.1)]

/-! ## The choice among candidates -/

theorem select?_eq (cands : List Specialization) (args : List String) :
    select? cands args =
      (cands.find? fun s => matchArguments s.args args && s.args.length = args.length).or
        (cands.find? fun s => matchArguments s.args args) := by
  rw [select?, List.find?_filter, List.head?_filter]
  simp only [Bool.decide_and, Bool.decide_eq_true]

theorem of_select? {cands : List Specialization} {args : List String} {x : Specialization}
    (h : select? cands args = some x) : x ∈ cands ∧ matchArguments x.args args := by
  rw [select?_eq, Option.or_eq_some_iff] at h
  rcases h with h | ⟨-, h⟩
  · have hx := List.find?_some h
    exact ⟨List.mem_of_find?_eq_some h, (Bool.and_eq_true_iff.mp hx).1⟩
  · have hx := List.find?_some h
    exact ⟨List.mem_of_find?_eq_some h, hx⟩

theorem select?_eq_none {cands : List Specialization} {args : List String}
    (h : ∀ x ∈ cands, ¬matchArguments x.args args) : select? cands args = none := by
  rcases hsel : select? cands args with _ | x
  · rfl
  · obtain ⟨hx, hm⟩ := of_select? hsel
    exact absurd hm (h x hx)

theorem exists_select?_of_full {cands : List Specialization} {args : List String}
    {x : Specialization} (hx : x ∈ cands) (hm : matchArguments x.args args)
    (hlen : x.args.length = args.length) :
    ∃ y, select? cands args = some y ∧ matchArguments y.args args ∧
      y.args.length = args.length := by
  have hsome : (cands.find? fun s => matchArguments s.args args &&
      s.args.length = args.length).isSome := by
    rw [List.find?_isSome]
    exact ⟨x, hx, by simp [hm, hlen]⟩
  obtain ⟨y, hy⟩ := Option.isSome_iff_exists.mp hsome
  have hfull := List.find?_some hy
  simp only [Bool.and_eq_true, decide_eq_true_eq] at hfull
  exact ⟨y, by rw [select?_eq, hy, Option.some_or], hfull⟩

namespace Tables

variable {t : Tables} {q name : String} {n : Named Specialization}

/-- Is a specialization there to choose from under a qualified name? It has to be known by it, or
to have the bare name if nothing is known by the qualified one. -/
def admits (t : Tables) (q name : String) (n : Named Specialization) : Bool :=
  if t.specializations.any (·.answersTo q) || t.templates.any (·.answersTo q) then n.answersTo q
  else n.name = name

theorem candidates_eq (t : Tables) (q name : String) :
    t.candidates q name = (t.specializations.filter (t.admits q name)).map (·.item) := by
  have hempty : ∀ {α : Type} (ns : List (Named α)),
      ((ns.filter (·.answersTo q)).map (·.item)).isEmpty = !ns.any (·.answersTo q) := fun ns => by
    rw [Bool.eq_iff_iff]
    simp
  unfold candidates templatesNamed admits
  simp only [hempty, ← Bool.not_or]
  cases t.specializations.any (·.answersTo q) || t.templates.any (·.answersTo q) <;> rfl

theorem admits_of_answersTo (hn : n ∈ t.specializations) (h : n.answersTo q) :
    t.admits q name n := by
  have hknown : t.specializations.any (·.answersTo q) := List.any_eq_true.mpr ⟨n, hn, h⟩
  rw [admits, hknown]
  exact h

theorem admits_of_unknown (hspec : ∀ n ∈ t.specializations, ¬n.answersTo q)
    (htemplate : ∀ n ∈ t.templates, ¬n.answersTo q) (hname : n.name = name) :
    t.admits q name n := by
  rw [admits, List.any_eq_false.mpr hspec, List.any_eq_false.mpr htemplate]
  exact decide_eq_true hname

theorem mem_candidates {x : Specialization} :
    x ∈ t.candidates q name ↔ ∃ n ∈ t.specializations, t.admits q name n ∧ n.item = x := by
  simp only [candidates_eq, List.mem_map, List.mem_filter, and_assoc]

end Tables

end TemplateCensus.Dump
