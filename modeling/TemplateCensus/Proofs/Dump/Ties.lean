import TemplateCensus.Proofs.Dump.Exchange

/-! Does the order of specializations matter? A type that leaves out arguments fits several argument
lists, and so does one with an argument that the dump does not know; the first of them decides. Two
neighbours can change places without notice as long as no constructed type fits both of them. -/

namespace TemplateCensus.Dump

open Spelling Attributes

/-! ## Argument lists in a node -/

mutual

def Node.argumentLists : Node → List (List String)
  | .null => []
  | .mk a children => argumentListsAll children ++
    if a.hasRole .specialization then (argumentsOf? children).toList else []

def argumentListsAll : List Node → List (List String)
  | [] => []
  | n :: ns => n.argumentLists ++ argumentListsAll ns

end

theorem args_report (s : Surroundings) (a : Attributes) (children : List Node) (here : Place)
    (inner : Findings) :
    (report s a children here inner).specializations.map (·.item.args) =
      inner.specializations.map (·.item.args) ++
        if a.hasRole .specialization then (argumentsOf? children).toList else [] := by
  unfold report
  cases h : Role.ofKind a.kind <;> simp only [hasRole_eq, h, ne_eq, reduceCtorEq,
    not_false_eq_true, decide_false, decide_true, if_true, if_false, Bool.false_eq_true,
    List.append_nil]
  case record => cases a.isImplicit <;> rfl
  case specialization =>
    cases argumentsOf? children with
    | none => exact (List.append_nil _).symm
    | some args => exact List.map_append
  all_goals rfl

mutual

theorem args_survey (s : Surroundings) (c : Cursor) :
    (n : Node) → (survey s c n).1.specializations.map (·.item.args) = n.argumentLists
  | .null => rfl
  | .mk a children => by
    refine (args_report s a children (c.passNode a).1 _).trans ?_
    rw [args_surveyAll, Node.argumentLists]

theorem args_surveyAll (s : Surroundings) (c : Cursor) :
    (ns : List Node) → (surveyAll s c ns).1.specializations.map (·.item.args) = argumentListsAll ns
  | [] => rfl
  | n :: ns => by
    have hadd : (surveyAll s c (n :: ns)).1.specializations =
      (survey s c n).1.specializations ++ (surveyAll s (survey s c n).2 ns).1.specializations := rfl
    rw [hadd, List.map_append, args_survey, args_surveyAll, argumentListsAll]

end

/-! ## The choice in both orders -/

theorem find?_exchange {α : Type} (p : α → Bool) (as xs ys bs : List α) :
    (as ++ ys ++ xs ++ bs).find? p = (as ++ xs ++ ys ++ bs).find? p ∨
      ∃ x ∈ xs, ∃ y ∈ ys, p x ∧ p y ∧ (as ++ xs ++ ys ++ bs).find? p = some x ∧
        (as ++ ys ++ xs ++ bs).find? p = some y := by
  simp only [List.find?_append]
  rcases as.find? p with _ | a
  · rcases hx : xs.find? p with _ | x
    · simp
    · rcases hy : ys.find? p with _ | y
      · simp
      · exact .inr ⟨x, List.mem_of_find?_eq_some hx, y, List.mem_of_find?_eq_some hy,
          List.find?_some hx, List.find?_some hy, by simp, by simp⟩
  · simp

/-- Printed arguments fit two argument lists alike: both in full, or both with arguments left
out. -/
def FitAlike (args as bs : List String) : Prop :=
  matchArguments as args ∧ matchArguments bs args ∧
    (as.length = args.length ↔ bs.length = args.length)

theorem FitAlike.of_known {args as bs : List String} (h : FitAlike args as bs) (ha : "" ∉ as)
    (hb : "" ∉ bs) : as = bs ∨ args.length < as.length ∧ args.length < bs.length := by
  obtain ⟨hma, hmb, hlen⟩ := h
  by_cases hfull : as.length = args.length
  · rw [eq_of_matchArguments hma hfull ha, eq_of_matchArguments hmb (hlen.mp hfull) hb]
    exact .inl rfl
  · have hla := length_le_of_matchArguments hma
    have hlb := length_le_of_matchArguments hmb
    exact .inr ⟨by omega, by omega⟩

theorem select?_exchange (args : List String) (as xs ys bs : List Specialization) :
    select? (as ++ ys ++ xs ++ bs) args = select? (as ++ xs ++ ys ++ bs) args ∨
      ∃ x ∈ xs, ∃ y ∈ ys, FitAlike args x.args y.args ∧
        select? (as ++ xs ++ ys ++ bs) args = some x ∧
        select? (as ++ ys ++ xs ++ bs) args = some y := by
  rw [select?_eq, select?_eq]
  rcases find?_exchange (fun s : Specialization => matchArguments s.args args &&
    s.args.length = args.length) as xs ys bs with hsame | ⟨x, hx, y, hy, hpx, hpy, hfx, hfy⟩
  · rw [hsame]
    rcases hfull : (as ++ xs ++ ys ++ bs).find? _ with _ | z
    · -- no candidate fits in full, so the choice is among those with arguments left out
      have hshort : ∀ z ∈ as ++ xs ++ ys ++ bs, matchArguments z.args args →
          z.args.length ≠ args.length := by
        intro z hz hmatch hlen
        exact List.find?_eq_none.mp hfull z hz (by simp [hmatch, hlen])
      rcases find?_exchange (fun s : Specialization => matchArguments s.args args) as xs ys bs
        with hsame | ⟨x, hx, y, hy, hpx, hpy, hfx, hfy⟩
      · exact .inl (by rw [hsame])
      · have hlx := hshort x (by simp [hx]) hpx
        have hly := hshort y (by simp [hy]) hpy
        exact .inr ⟨x, hx, y, hy, ⟨hpx, hpy, by simp [hlx, hly]⟩, hfx, hfy⟩
    · exact .inl rfl
  · simp only [Bool.and_eq_true, decide_eq_true_eq] at hpx hpy
    exact .inr ⟨x, hx, y, hy, ⟨hpx.1, hpy.1, by simp [hpx.2, hpy.2]⟩, by rw [hfx, Option.some_or],
      by rw [hfy, Option.some_or]⟩

section
variable {t u : Tables} {as xs ys bs : List (Named Specialization)}

theorem Tables.admits_perm (htemplates : u.templates = t.templates)
    (h : u.specializations.Perm t.specializations) (q name : String) :
    u.admits q name = t.admits q name := by
  funext n
  rw [admits, admits, htemplates, h.any_eq]

theorem Tables.candidates_exchange (htemplates : u.templates = t.templates)
    (ht : t.specializations = as ++ xs ++ ys ++ bs)
    (hu : u.specializations = as ++ ys ++ xs ++ bs) (q name : String) :
    ∃ p : Named Specialization → Bool,
      t.candidates q name = (as.filter p).map (·.item) ++ (xs.filter p).map (·.item) ++
        (ys.filter p).map (·.item) ++ (bs.filter p).map (·.item) ∧
      u.candidates q name = (as.filter p).map (·.item) ++ (ys.filter p).map (·.item) ++
        (xs.filter p).map (·.item) ++ (bs.filter p).map (·.item) := by
  have hperm : u.specializations.Perm t.specializations := by
    rw [ht, hu]
    exact perm_exchange as xs ys bs
  refine ⟨t.admits q name, ?_, ?_⟩
  · rw [candidates_eq, ht]
    simp only [List.filter_append, List.map_append]
  · rw [candidates_eq, admits_perm htemplates hperm, hu]
    simp only [List.filter_append, List.map_append]

theorem Specialization.isInstantiation_perm {ps qs : List String} (h : ps.Perm qs)
    (x : Specialization) (d : ClassTemplate) : x.isInstantiation d ps = x.isInstantiation d qs := by
  simp only [isInstantiation, h.contains_eq]

theorem Tables.isInstantiation_exchange (htemplates : u.templates = t.templates)
    (ht : t.specializations = as ++ xs ++ ys ++ bs)
    (hu : u.specializations = as ++ ys ++ xs ++ bs) (hpartials : u.partials.Perm t.partials)
    (d : ClassTemplate) (q name : String) (args : List String) :
    u.isInstantiation d q name args = t.isInstantiation d q name args ∨
      ∃ x ∈ xs, ∃ y ∈ ys, x.item ∈ t.candidates q name ∧ y.item ∈ t.candidates q name ∧
        FitAlike args x.item.args y.item.args ∧
        x.item.isInstantiation d t.partials ≠ y.item.isInstantiation d t.partials := by
  obtain ⟨p, hcands, hcands'⟩ := candidates_exchange htemplates ht hu q name
  have hverdict : ∀ x : Specialization,
      x.isInstantiation d u.partials = x.isInstantiation d t.partials :=
    fun x => x.isInstantiation_perm hpartials d
  simp only [isInstantiation, specialization?, hverdict]
  rcases select?_exchange args ((as.filter p).map (·.item)) ((xs.filter p).map (·.item))
    ((ys.filter p).map (·.item)) ((bs.filter p).map (·.item)) with hsame | ⟨a, ha, b, hb, hfit, h⟩
  · rw [hcands, hcands', hsame]
    exact .inl rfl
  · obtain ⟨x, hx, rfl⟩ := List.mem_map.mp ha
    obtain ⟨y, hy, rfl⟩ := List.mem_map.mp hb
    by_cases heq : x.item.isInstantiation d t.partials = y.item.isInstantiation d t.partials
    · rw [hcands, hcands', h.1, h.2]
      exact .inl heq.symm
    · refine .inr ⟨x, (List.mem_filter.mp hx).1, y, (List.mem_filter.mp hy).1, ?_, ?_, hfit, heq⟩
      · rw [hcands]
        simp only [List.mem_append]
        exact .inl (.inl (.inr ha))
      · rw [hcands]
        simp only [List.mem_append]
        exact .inl (.inr hb)

theorem Tables.template?_congr (htemplates : u.templates = t.templates) (q : String) :
    u.template? q = t.template? q := by
  cases t
  cases u
  cases htemplates
  rfl

theorem Tables.recordOf_congr (htemplates : u.templates = t.templates) {k : String}
    (h : ∀ name args d, Spelling.template? (lastPart k) = some (name, args) →
      t.template? (plainName k) = some d →
        u.isInstantiation d (plainName k) name args = t.isInstantiation d (plainName k) name args) :
    u.recordOf k = t.recordOf k := by
  unfold recordOf
  split_ifs
  · congr 2
    cases hk : Spelling.template? (lastPart k) with
    | none =>
      rw [lastPart] at hk
      simp only [resolve, hk]
    | some na =>
      obtain ⟨name, args⟩ := na
      have hverdict := h name args
      rw [plainName_of_template? hk] at hverdict
      rw [lastPart] at hk hverdict
      simp only [resolve, hk, template?_congr htemplates]
      cases hd : t.template? (qualify ((scopeParts k).dropLast.map templateName ++ [name])) with
      | none => rfl
      | some d => simp only [hverdict d hk hd]
  · rfl

end

/-! ## Ties -/

/-- The arguments that a spelling shows fit an argument list in `x` and one in `y` alike, both to
choose from, and only one of the two was generated from the class template. -/
def Tables.Tied (t : Tables) (x y : Node) (k : String) : Prop :=
  ∃ name args d, Spelling.template? (lastPart k) = some (name, args) ∧
    t.template? (plainName k) = some d ∧
      ∃ v ∈ t.candidates (plainName k) name, ∃ w ∈ t.candidates (plainName k) name,
        v.args ∈ x.argumentLists ∧ w.args ∈ y.argumentLists ∧ FitAlike args v.args w.args ∧
          v.isInstantiation d t.partials ≠ w.isInstantiation d t.partials

theorem recordOf_exchange {x y : Node} {path : List Attributes} {f g : Findings}
    (h : f.Exchanged (survey (around path) {} x).1.specializations
      (survey (around path) {} y).1.specializations g) (k : String) :
    g.tables.recordOf k = f.tables.recordOf k ∨ f.tables.Tied x y k := by
  obtain ⟨hsame, ⟨as, bs, hf, hg⟩, hpartials⟩ := h
  have htemplates : g.tables.templates = f.tables.templates := by
    rw [hsame]
    rfl
  by_cases htied : f.tables.Tied x y k
  · exact .inr htied
  · refine .inl (Tables.recordOf_congr htemplates fun name args d hk hd => ?_)
    rcases Tables.isInstantiation_exchange htemplates hf hg (hpartials.map _) d (plainName k) name
      args with heq | ⟨v, hv, w, hw, hvc, hwc, hfit, hne⟩
    · exact heq
    · -- the arguments of the two specializations are listed in the nodes
      have hvx : v.item.args ∈ x.argumentLists := by
        rw [← args_survey (around path) {} x]
        exact List.mem_map_of_mem hv
      have hwy : w.item.args ∈ y.argumentLists := by
        rw [← args_survey (around path) {} y]
        exact List.mem_map_of_mem hw
      exact absurd ⟨name, args, d, hk, hd, _, hvc, _, hwc, hvx, hwy, hfit, hne⟩ htied

theorem exists_of_exchange_singleton {x y root root' : Node} (h : Exchange x y [root] [root']) :
    ∃ a cs ds, root = .mk a cs ∧ root' = .mk a ds ∧ Exchange x y cs ds := by
  cases h with
  | later _ h => cases h
  | inside a _ h => exact ⟨a, _, _, rfl, rfl, h⟩

/-- Two specializations next to each other change places, in a dump whose positions say everything.
Then every constructor call keeps its record, unless its type is tied between them. If no type is,
the unit stays the same, and with it all that is counted. Where all arguments are known and the
lists differ, a type is tied only if it leaves out arguments of both. -/
theorem order_matters_for_ties {main : String} {root root' : Node} {x y : Node} {s : Surveyed}
    (hs : ofNode main root = .ok s)
    (hfull : ∀ p ∈ root.points, p.isValid → p.file ≠ "" ∧ p.line ≠ 0)
    (hx : x.IsPlainSpecialization) (hy : y.IsPlainSpecialization)
    (h : Exchange x y [root] [root']) :
    ∃ s', ofNode main root' = .ok s' ∧
      List.Forall₂ (fun c d => d = { c with record := d.record } ∧
        (d.record = c.record ∨ s.tables.Tied x y c.canonical)) s.constructions s'.constructions ∧
      ((∀ c ∈ s.constructions, ¬s.tables.Tied x y c.canonical) → s'.unit = s.unit) ∧
      ((∀ as ∈ x.argumentLists, ∀ bs ∈ y.argumentLists, "" ∉ as ∧ "" ∉ bs ∧ as ≠ bs) →
        ∀ k, s.tables.Tied x y k →
          ∃ name args, Spelling.template? (lastPart k) = some (name, args) ∧
            ∃ as ∈ x.argumentLists, ∃ bs ∈ y.argumentLists,
              args.length < as.length ∧ args.length < bs.length) := by
  obtain ⟨a, cs, ds, rfl, rfl, hinside⟩ := exists_of_exchange_singleton h
  obtain ⟨hgap, hmain, htables, hcalls⟩ := ofNode_eq_ok hs
  have hexplicit : ∀ b ∈ inOrderAll cs, b.IsExplicit := fun b hb p hp =>
    hfull p (List.mem_flatMap.mpr ⟨b, hb, hp⟩)
  obtain ⟨path, hpath⟩ : ∃ path, (Node.mk a cs).found.Exchanged _ _ (Node.mk a ds).found :=
    surveyAll_exchange hx hy hinside hexplicit [] {}
  have hgap' : (Node.mk a ds).found.hasGap = false := by rw [hpath.same, hgap]
  obtain ⟨s', hs'⟩ := exists_ofNode main (kind_of_ofNode hs) hgap'
  obtain ⟨-, hmain', htables', hcalls'⟩ := ofNode_eq_ok hs'
  have hsame : (Node.mk a ds).found.constructions = (Node.mk a cs).found.constructions := by
    rw [hpath.same]
  have hrecord : ∀ k, s'.tables.recordOf k = s.tables.recordOf k ∨ s.tables.Tied x y k := by
    rw [htables, htables']
    exact recordOf_exchange hpath
  refine ⟨s', hs', ?_, ?_, ?_⟩
  · rw [hcalls, hcalls', hsame, List.forall₂_map_left_iff, List.forall₂_map_right_iff,
      List.forall₂_same]
    exact fun c _ => ⟨rfl, hrecord c.canonical⟩
  · intro huntied
    have hsettle : s'.constructions = s.constructions := by
      rw [hcalls] at huntied
      rw [hcalls, hcalls', hsame]
      apply List.map_congr_left
      intro c hc
      have hfree : ¬s.tables.Tied x y c.canonical :=
        huntied (s.tables.settle c) (List.mem_map_of_mem hc)
      rw [Tables.settle, (hrecord c.canonical).resolve_right hfree, Tables.settle]
    unfold Surveyed.unit
    rw [hmain, hmain', hsettle]
  · rintro hdiffer k ⟨name, args, d, hk, -, v, -, w, -, hv, hw, hfit, -⟩
    obtain ⟨hkv, hkw, hne⟩ := hdiffer v.args hv w.args hw
    have hshort := (hfit.of_known hkv hkw).resolve_left hne
    exact ⟨name, args, hk, v.args, hv, w.args, hw, hshort⟩

def defaultedBox (first second : Node) (type : String) : Node :=
  let header : Option Spot := some (.mk ⟨some 0, "box.h", 1, 35, "main.cc"⟩ none none)
  .mk { kind := rootKind } [
    .mk { kind := "ClassTemplateDecl", name := "Box", location := header } [
      .mk { kind := "TemplateTypeParmDecl", name := "T" } [],
      .mk { kind := "TemplateTypeParmDecl", name := "U" } [],
      .mk { kind := "CXXRecordDecl", name := "Box", location := header, isComplete := true } []],
    first,
    second,
    .mk { kind := "CXXConstructExpr", type := some ⟨type, ""⟩,
          start := some (.mk ⟨some 0, "main.cc", 3, 12, ""⟩ none none) } []]

def specializedBox : Node :=
  let header : Option Spot := some (.mk ⟨some 0, "box.h", 2, 19, "main.cc"⟩ none none)
  .mk { kind := "ClassTemplateSpecializationDecl", name := "Box", location := header } [
    .mk { kind := argumentKind, type := some ⟨"int", ""⟩ } [],
    .mk { kind := argumentKind, type := some ⟨"char", ""⟩ } [],
    .mk { kind := "CXXRecordDecl", name := "Box", location := header, isImplicit := true } []]

def instantiatedBox : Node :=
  let header (line column : Int) : Option Spot :=
    some (.mk ⟨some 0, "box.h", line, column, "main.cc"⟩ none none)
  .mk { kind := "ClassTemplateSpecializationDecl", name := "Box", location := header 3 16 } [
    .mk { kind := argumentKind, type := some ⟨"int", ""⟩ } [],
    .mk { kind := argumentKind, type := some ⟨"int", ""⟩ } [],
    .mk { kind := "CXXRecordDecl", name := "Box", location := header 1 35, isImplicit := true } []]

theorem isPlainSpecialization_boxes :
    specializedBox.IsPlainSpecialization ∧ instantiatedBox.IsPlainSpecialization :=
  ⟨⟨by decide, by decide⟩, ⟨by decide, by decide⟩⟩

theorem order_matters_for_ties_box :
    ∃ s s', ofNode "main.cc" (defaultedBox specializedBox instantiatedBox "Box<int, int>") = .ok s ∧
      ofNode "main.cc" (defaultedBox instantiatedBox specializedBox "Box<int, int>") = .ok s' ∧
      s'.unit = s.unit := by
  have hs : ∃ s, ofNode "main.cc" (defaultedBox specializedBox instantiatedBox "Box<int, int>") =
      .ok s := ⟨_, rfl⟩
  obtain ⟨s, hs⟩ := hs
  obtain ⟨hx, hy⟩ := isPlainSpecialization_boxes
  obtain ⟨s', hs', -, hunit, -⟩ := order_matters_for_ties hs (by decide +kernel) hx hy
    (.inside _ _ (.later _ (.here _)))
  refine ⟨s, s', hs, hs', hunit ?_⟩
  intro c hc
  have hall : ∀ b ∈ (defaultedBox specializedBox instantiatedBox
      "Box<int, int>").found.constructions, b.canonical = "Box<int, int>" := by decide +kernel
  have hcanon : c.canonical = "Box<int, int>" := by
    rw [(ofNode_eq_ok hs).2.2.2] at hc
    obtain ⟨b, hb, rfl⟩ := List.mem_map.mp hc
    exact hall b hb
  rw [hcanon]
  rintro ⟨name, args, d, hk, -, v, -, w, -, hv, -, hfit, -⟩
  have hargs : Spelling.template? (lastPart "Box<int, int>") = some ("Box", ["int", "int"]) := by
    decide +kernel
  have hlists : specializedBox.argumentLists = [["int", "char"]] := by decide +kernel
  rw [hargs] at hk
  cases hk
  rw [hlists, List.mem_singleton] at hv
  rw [hv] at hfit
  exact absurd hfit.1 (by decide)

/-- The explicit specialization for one argument list stands in the way of the instantiation with
another one: the type that leaves out the second argument is an ordinary record with no entry, and
with the two in the other order it is an instantiation with an entry. -/
theorem exchange_changes_kind :
    ∃ s s', ofNode "main.cc" (defaultedBox specializedBox instantiatedBox "Box<int>") = .ok s ∧
      ofNode "main.cc" (defaultedBox instantiatedBox specializedBox "Box<int>") = .ok s' ∧
      (∀ p ∈ (defaultedBox specializedBox instantiatedBox "Box<int>").points,
        p.isValid → p.file ≠ "" ∧ p.line ≠ 0) ∧
      (specializedBox.IsPlainSpecialization ∧ instantiatedBox.IsPlainSpecialization) ∧
      Exchange specializedBox instantiatedBox
        [defaultedBox specializedBox instantiatedBox "Box<int>"]
        [defaultedBox instantiatedBox specializedBox "Box<int>"] ∧
      specializedBox.argumentLists = [["int", "char"]] ∧
      instantiatedBox.argumentLists = [["int", "int"]] ∧
      s.constructions.map (fun c => (c.canonical, c.record.map RecordDecl.kind)) =
        [("Box<int>", some .ordinary)] ∧
      s'.constructions.map (fun c => (c.canonical, c.record.map RecordDecl.kind)) =
        [("Box<int>", some .instantiation)] ∧
      (s.unit.census {}).registry.keys = [] ∧ (s'.unit.census {}).registry.keys = ["Box<int>"] := by
  have hs : ∃ s, ofNode "main.cc" (defaultedBox specializedBox instantiatedBox "Box<int>") =
      .ok s := ⟨_, rfl⟩
  have hs' : ∃ s, ofNode "main.cc" (defaultedBox instantiatedBox specializedBox "Box<int>") =
      .ok s := ⟨_, rfl⟩
  obtain ⟨s, hs⟩ := hs
  obtain ⟨s', hs'⟩ := hs'
  let seen (s : Surveyed) : List (String × Option RecordKind) × List String :=
    (s.constructions.map fun c => (c.canonical, c.record.map RecordDecl.kind),
      (s.unit.census {}).registry.keys)
  have hseen : (ofNode "main.cc" (defaultedBox specializedBox instantiatedBox
      "Box<int>")).toOption.map seen = some ([("Box<int>", some .ordinary)], []) := by
    decide +kernel
  have hseen' : (ofNode "main.cc" (defaultedBox instantiatedBox specializedBox
      "Box<int>")).toOption.map seen =
        some ([("Box<int>", some .instantiation)], ["Box<int>"]) := by decide +kernel
  rw [hs] at hseen
  rw [hs'] at hseen'
  obtain ⟨hkinds, hkeys⟩ := Prod.mk.inj (Option.some.inj hseen)
  obtain ⟨hkinds', hkeys'⟩ := Prod.mk.inj (Option.some.inj hseen')
  exact ⟨s, s', hs, hs', by decide +kernel, isPlainSpecialization_boxes,
    .inside _ _ (.later _ (.here _)), by decide +kernel, by decide +kernel, hkinds, hkinds',
    hkeys, hkeys'⟩

end TemplateCensus.Dump
