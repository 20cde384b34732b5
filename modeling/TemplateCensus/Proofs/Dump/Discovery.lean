import TemplateCensus.Proofs.Dump.Origin

/-! What the census finds in a dump. Nothing is invented: every entry goes back to a call and to a
class template of the dump. Nothing is lost: a call in the main file whose type is printed as an
instantiation of a class template of the dump has its entry. -/

namespace TemplateCensus.Dump

open Spelling

def Visit.answersTo (v : Visit) (q : String) : Bool := v.fullName = q || v.visibleName = q

def nestedDump : Node :=
  let header (line : Int) : Option Spot := some (.mk ⟨some 0, "map.h", line, 3, "main.cc"⟩ none none)
  let main (line : Int) : Option Spot := some (.mk ⟨some 0, "main.cc", line, 5, ""⟩ none none)
  .mk { kind := rootKind } [
    .mk { kind := "NamespaceDecl", name := "std" } [
      .mk { kind := "NamespaceDecl", name := "v1", isInline := true } [
        .mk { kind := "ClassTemplateDecl", name := "Map", location := header 4 } [
          .mk { kind := "TemplateTypeParmDecl", name := "K" } [],
          .mk { kind := "CXXRecordDecl", name := "Map", isComplete := true } [
            .mk { kind := "ClassTemplateDecl", name := "Cell", location := header 7 } [
              .mk { kind := "TemplateTypeParmDecl", name := "T" } [],
              .mk { kind := "CXXRecordDecl", name := "Cell", isComplete := true } []]]]]],
    .mk { kind := "CXXConstructExpr", start := main 8,
          type := some ⟨"std::Map<pair<int, char>>::Cell<int (*)[2]>", ""⟩ } [],
    .mk { kind := "CXXTemporaryObjectExpr", start := main 9, type := some ⟨"Cell<int>", ""⟩ } []]

theorem exists_ofNode_nestedDump : ∃ s, ofNode "main.cc" nestedDump = .ok s := ⟨_, rfl⟩

/-- Every entry of the registry stands under its type and has the place of the last call in the
main file that constructs the type. Its template is declared by a node of the dump outside the main
file, with a record. That node is known by the name behind the type; or no class template is, and
then it has the last component of that name, and all class templates called so are declared with
the same names around them. -/
theorem entry_goes_back {main : String} {root : Node} {s : Surveyed}
    (hs : ofNode main root = .ok s) (t : Trace) {k : String} {i : Instantiation}
    (hi : (s.unit.census t).registry.find? k = some i) :
    i.type = k ∧ k ≠ "" ∧ (root.sites main k).getLast?.map Visit.start = some i.location ∧
      ∃ d ∈ root.visits, d.attrs.hasRole .classTemplate ∧ (templated? d.children).isSome ∧
        i.template = d.attrs.name ∧ i.params = paramNames d.children ∧
        i.source = (d.location.map (·.file)).getD "" ∧ ¬Surveyed.inMain main d.location ∧
        (d.answersTo (plainName k) ∨
          (∀ e ∈ root.visits, e.attrs.hasRole .classTemplate → ¬e.answersTo (plainName k)) ∧
            d.attrs.name = lastPart (plainName k) ∧
            ∀ e ∈ root.visits, e.attrs.hasRole .classTemplate → e.attrs.name = d.attrs.name →
              declaredName e.template = declaredName d.template) := by
  have hshows := shows_of_ofNode hs
  obtain ⟨c, horigin, hout, v, hv, rfl⟩ := hshows.find?_census_eq_some_iff.mp hi
  obtain ⟨hrecord, name, args, -, htemplate, hsome, -⟩ := Tables.origin?_eq_some_iff.mp horigin
  obtain ⟨n, hn, rfl, hfound⟩ := Tables.exists_of_template? htemplate
  obtain ⟨d, hd, hrole, rfl⟩ := (hshows.mem_templates n).mp hn
  have hvk : v.construction.canonical = k :=
    Node.canonical_of_mem_sites (List.mem_of_getLast? hv)
  have hk : k ≠ "" := by
    rintro rfl
    exact absurd hrecord (by decide)
  refine ⟨hvk, hk, by rw [hv]; rfl, d, hd, hrole, ?_, rfl, rfl, rfl, hout, ?_⟩
  · rw [← d.isSome_record_template]
    exact hsome
  · refine hfound.imp id fun ⟨hnone, hlast, hagree⟩ => ⟨fun e he hrole => ?_, hlast, ?_⟩
    · exact hnone (e.named e.template) ((hshows.mem_templates _).mpr ⟨e, he, hrole, rfl⟩)
    · intro e he hrole hname
      exact hagree (e.named e.template) ((hshows.mem_templates _).mpr ⟨e, he, hrole, rfl⟩) hname

theorem entry_goes_back_bare_name :
    ∃ s i, ofNode "main.cc" nestedDump = .ok s ∧
      (s.unit.census {}).registry.find? "Cell<int>" = some i ∧ i.type = "Cell<int>" ∧
      ∃ d ∈ nestedDump.visits, i.template = d.attrs.name ∧ (templated? d.children).isSome ∧
        i.params = paramNames d.children := by
  obtain ⟨s, hs⟩ := exists_ofNode_nestedDump
  have hentry : ((ofNode "main.cc" nestedDump).toOption.bind fun s =>
      (s.unit.census {}).registry.find? "Cell<int>") =
        some ⟨"Cell<int>", "map.h", "Cell", ["T"], some ⟨"main.cc", 9, 5, ""⟩⟩ := by decide +kernel
  rw [hs] at hentry
  obtain ⟨htype, -, -, d, hd, -, hrecord, hname, hparams, -⟩ := entry_goes_back hs {} hentry
  exact ⟨s, _, hs, hentry, htype, d, hd, hname, hrecord, hparams⟩

/-! ## Names in a dump -/

def Attributes.isNamed (a : Attributes) : Bool := a.scope?.isSome || a.hasRole .classTemplate

def Node.HasPlainNames (root : Node) : Prop :=
  ∀ a ∈ root.descendants, a.isNamed → a.name = "" ∨ isIdentifier a.name

/-- The names of the scopes around the node: all of them, or those that printed names show. -/
def Visit.paths (v : Visit) : List (List String) :=
  [v.scopes.map (·.name), (v.scopes.filter (!·.isTransparent)).map (·.name)]

theorem Visit.exists_path_of_answersTo {v : Visit} {q : String} (h : v.answersTo q) :
    ∃ path ∈ v.paths, qualify (path ++ [v.attrs.name]) = q := by
  rcases Bool.or_eq_true_iff.mp h with h | h
  · exact ⟨_, List.mem_cons_self, of_decide_eq_true h⟩
  · exact ⟨_, List.mem_cons_of_mem _ List.mem_cons_self, of_decide_eq_true h⟩

theorem Visit.answersTo_of_mem_paths {v : Visit} {path : List String} (h : path ∈ v.paths) :
    v.answersTo (qualify (path ++ [v.attrs.name])) := by
  rw [answersTo, Bool.or_eq_true, decide_eq_true_iff, decide_eq_true_iff]
  simp only [paths, List.mem_cons, List.not_mem_nil, or_false] at h
  rcases h with rfl | rfl
  · exact .inl rfl
  · exact .inr rfl

theorem Visit.exists_scope_of_mem_paths {v : Visit} {path : List String} (h : path ∈ v.paths)
    {name : String} (hname : name ∈ path) :
    ∃ a ∈ v.above, ∃ sc, a.scope? = some sc ∧ sc.name = name := by
  have hscope : ∃ sc ∈ v.scopes, sc.name = name := by
    simp only [paths, List.mem_cons, List.not_mem_nil, or_false] at h
    rcases h with rfl | rfl
    · exact List.mem_map.mp hname
    · obtain ⟨sc, hsc, hn⟩ := List.mem_map.mp hname
      exact ⟨sc, (List.mem_filter.mp hsc).1, hn⟩
  obtain ⟨sc, hsc, hn⟩ := hscope
  obtain ⟨a, ha, hasc⟩ := List.mem_filterMap.mp hsc
  exact ⟨a, ha, sc, hasc, hn⟩

theorem Attributes.name_of_scope? {a : Attributes} {sc : Scope} (h : a.scope? = some sc) :
    sc.name = "(anonymous namespace)" ∨ sc.name = a.name ∧ (a.name = "" → a.isRecord) := by
  unfold scope? at h
  split_ifs at h with hs hn hr
  · exact .inl (Option.some.inj h ▸ rfl)
  · exact .inr (Option.some.inj h ▸ ⟨rfl, fun hempty => absurd hempty hn⟩)
  · exact .inr (Option.some.inj h ▸ ⟨rfl, fun _ => hr⟩)

section
variable {root : Node} (hnames : root.HasPlainNames) {v : Visit} (hv : v ∈ root.visits)

include hnames hv

theorem isScopeName_of_mem_paths {path : List String} (hpath : path ∈ v.paths) {name : String}
    (hname : name ∈ path) :
    IsScopeName name ∨ name = "" ∧ ∃ a ∈ v.above, a.isRecord ∧ a.name = "" := by
  obtain ⟨a, ha, sc, hsc, rfl⟩ := v.exists_scope_of_mem_paths hpath hname
  rcases Attributes.name_of_scope? hsc with hanon | ⟨hsame, hrecord⟩
  · rw [hanon]
    exact .inl isScopeName_anonymous
  · have hnamed : a.isNamed := by simp [Attributes.isNamed, hsc]
    rw [hsame]
    rcases hnames a ((Node.mem_descendants_of_mem_visits hv).2 a ha) hnamed with hempty | hid
    · exact .inr ⟨hempty, a, ha, hrecord hempty, hempty⟩
    · exact .inl (isScopeName_of_isIdentifier hid)

theorem isComponent_of_mem_paths {path : List String} (hpath : path ∈ v.paths)
    (hnamed : v.attrs.isNamed) : ∀ name ∈ path ++ [v.attrs.name], IsComponent name.toList := by
  have hempty : IsComponent "".toList := .of_plain fun c hc => nomatch hc
  intro name hname
  rcases List.mem_append.mp hname with hname | hname
  · rcases isScopeName_of_mem_paths hnames hv hpath hname with h | ⟨rfl, -⟩
    · exact h.isComponent
    · exact hempty
  · rw [List.mem_singleton.mp hname]
    rcases hnames v.attrs (Node.mem_descendants_of_mem_visits hv).1 hnamed with h | h
    · rwa [h]
    · exact isComponent_of_isIdentifier h

theorem name_of_answersTo {path : List String} {name : String} (hnamed : v.attrs.isNamed)
    (hpath : ∀ n ∈ path ++ [name], IsComponent n.toList)
    (h : v.answersTo (qualify (path ++ [name]))) : v.attrs.name = name := by
  -- both qualified names come apart into their components, the last ones are the names
  obtain ⟨own, hown, heq⟩ := v.exists_path_of_answersTo h
  have hparts := qualify_inj (by simp) (by simp) (isComponent_of_mem_paths hnames hv hown hnamed)
    hpath heq
  exact List.singleton_inj.mp (List.append_inj_right' hparts rfl)

end

theorem namesRecord_of_applied (texts : List String) (name args : String) :
    namesRecord (qualify (texts ++ [applied name args])) := by
  obtain ⟨front, hfront⟩ : ∃ front, qualify (texts ++ [applied name args]) =
      front ++ applied name args := by
    rcases eq_or_ne texts [] with rfl | hne
    · exact ⟨"", by simp [qualify]⟩
    · exact ⟨_, String.intercalate_append_of_ne_nil hne (by simp)⟩
  have hlast : (qualify (texts ++ [applied name args])).toList.getLast? = some '>' := by
    rw [hfront, String.toList_append, toList_applied, ← List.cons_append, ← List.append_assoc,
      ← List.append_assoc, List.getLast?_concat]
  have hne : qualify (texts ++ [applied name args]) ≠ "" := by
    intro hempty
    rw [hempty] at hlast
    exact nomatch hlast
  simp [namesRecord, hlast, hne]

/-- `k` is printed for an instantiation of the class template at the node: the names around it,
each with or without arguments, and its own name with arguments. -/
def Visit.IsPrinted (d : Visit) (path : List String) (k : String) : Prop :=
  path ∈ d.paths ∧ ∃ (texts : List String) (args : String), List.Forall₂ Shows path texts ∧
    isBracketed [] args.toList ∧ k = qualify (texts ++ [applied d.attrs.name args])

theorem Visit.IsPrinted.parts {d : Visit} {path : List String} {k : String}
    (h : d.IsPrinted path k) (hpath : ∀ n ∈ path, IsScopeName n)
    (hname : IsScopeName d.attrs.name) :
    namesRecord k ∧ plainName k = qualify (path ++ [d.attrs.name]) ∧
      ∃ args, Spelling.template? (lastPart k) = some (d.attrs.name, args) := by
  obtain ⟨-, texts, args, htexts, hargs, rfl⟩ := h
  have hshows : List.Forall₂ Shows (path ++ [d.attrs.name])
      (texts ++ [applied d.attrs.name args]) :=
    List.rel_append htexts (.cons (.inr ⟨args, hargs, rfl⟩) .nil)
  have hall : ∀ n ∈ path ++ [d.attrs.name], IsScopeName n := by
    simpa [or_imp, forall_and] using ⟨hpath, hname⟩
  obtain ⟨hparts, hplain⟩ := scopeParts_of_shows hshows (by simp) hall
  refine ⟨namesRecord_of_applied _ _ _, hplain, ?_⟩
  rw [lastPart, hparts, List.getLastD_concat]
  exact template?_applied hname.toIsTemplateName hargs

/-! ## Nothing is lost -/

/-- A class template that calls can be traced back to under the names `path` around it: it and the
records around it have names, no specialization goes by its name, and whatever class template is
known by the same qualified name declares a record outside the main file. -/
structure Visit.IsOffered (d : Visit) (main : String) (root : Node) (path : List String) :
    Prop where
  mem_visits : d ∈ root.visits
  isTemplate : d.attrs.hasRole .classTemplate
  name_ne : d.attrs.name ≠ ""
  above_ne : ∀ a ∈ d.above, a.isRecord → a.name ≠ ""
  not_specialized : ∀ a ∈ root.descendants, a.hasRole .specialization → a.name ≠ d.attrs.name
  known : ∀ e ∈ root.visits, e.attrs.hasRole .classTemplate →
    e.answersTo (qualify (path ++ [d.attrs.name])) →
      (templated? e.children).isSome ∧ ¬Surveyed.inMain main e.location

theorem isNamed_of_specialization {a : Attributes} (h : a.hasRole .specialization) :
    a.isNamed := by
  simp only [Attributes.isNamed, Attributes.scope?, Attributes.isRecord, h]
  split <;> simp

section
variable {main : String} {root : Node} {d : Visit} {path : List String} {k : String}

theorem Visit.IsOffered.isScopeName (h : d.IsOffered main root path)
    (hnames : root.HasPlainNames) (hpath : path ∈ d.paths) :
    (∀ n ∈ path, IsScopeName n) ∧ IsScopeName d.attrs.name := by
  have hnamed : d.attrs.isNamed := by simp [Attributes.isNamed, h.isTemplate]
  constructor
  · intro n hn
    rcases isScopeName_of_mem_paths hnames h.mem_visits hpath hn with hscope | ⟨-, a, ha, hr, hempty⟩
    · exact hscope
    · exact absurd hempty (h.above_ne a ha hr)
  · rcases hnames d.attrs (Node.mem_descendants_of_mem_visits h.mem_visits).1 hnamed with hn | hn
    · exact absurd hn h.name_ne
    · exact isScopeName_of_isIdentifier hn

theorem Visit.IsOffered.exists_origin (h : d.IsOffered main root path) {s : Surveyed}
    (hshows : s.Shows main root) (hnames : root.HasPlainNames) (hk : d.IsPrinted path k) :
    ∃ e ∈ root.visits, e.attrs.hasRole .classTemplate ∧
      e.answersTo (qualify (path ++ [d.attrs.name])) ∧ e.attrs.name = d.attrs.name ∧
      s.tables.origin? k = some e.template ∧
      ∀ f ∈ root.visits, f.attrs.hasRole .classTemplate →
        f.answersTo (qualify (path ++ [d.attrs.name])) →
          (templated? f.children).any (·.isComplete) →
            (templated? e.children).any (·.isComplete) := by
  have hmem : ∀ e ∈ root.visits, e.attrs.hasRole .classTemplate →
      e.named e.template ∈ s.tables.templates :=
    fun e he hrole => (hshows.mem_templates _).mpr ⟨e, he, hrole, rfl⟩
  obtain ⟨hpath, hname⟩ := h.isScopeName hnames hk.1
  obtain ⟨hrecord, hplain, args, hargs⟩ := hk.parts hpath hname
  have hcomponents : ∀ n ∈ path ++ [d.attrs.name], IsComponent n.toList := by
    simpa [or_imp, forall_and] using
      ⟨fun n hn => (hpath n hn).isComponent, hname.isComponent⟩
  obtain ⟨m, hm, hmq, hfound, hprefer⟩ := Tables.template?_of_answersTo
    (hmem d h.mem_visits h.isTemplate) (d.answersTo_of_mem_paths hk.1)
  obtain ⟨e, he, herole, rfl⟩ := (hshows.mem_templates m).mp hm
  have hename : e.attrs.name = d.attrs.name :=
    name_of_answersTo hnames he (by simp [Attributes.isNamed, herole]) hcomponents hmq
  -- a specialization known by the qualified name would have the name as well
  have hno : ∀ n ∈ s.tables.specializations,
      ¬n.answersTo (qualify (path ++ [d.attrs.name])) ∧ n.name ≠ d.attrs.name := by
    intro n hn
    obtain ⟨w, hw, hwrole, x, rfl⟩ := hshows.mem_specializations n hn
    have hne := h.not_specialized w.attrs (Node.mem_descendants_of_mem_visits hw).1 hwrole
    refine ⟨fun hq => hne ?_, hne⟩
    exact name_of_answersTo hnames hw (isNamed_of_specialization hwrole) hcomponents hq
  refine ⟨e, he, herole, hmq, hename, ?_, fun f hf hfrole hfq hfdef => ?_⟩
  · refine Tables.origin?_eq_some_iff.mpr ⟨hrecord, d.attrs.name, args, hargs, ?_, ?_, ?_⟩
    · rw [hplain, hfound]
      rfl
    · rw [e.isSome_record_template]
      exact (h.known e he herole hmq).1
    · rw [hplain]
      exact Tables.isInstantiation_of_no_specialization hno e.template args
  · rw [← f.any_isDefinition_template] at hfdef
    rw [← e.any_isDefinition_template]
    exact hprefer (f.named f.template) (hmem f hf hfrole) hfq hfdef

theorem exists_ofNode_eq_ok (hroot : root.attrs?.any (·.kind = rootKind))
    (hgap : ofNode main root ≠ .error .gap) : ∃ s, ofNode main root = .ok s := by
  cases root with
  | null => exact nomatch hroot
  | mk a children =>
    have hkind : a.kind = rootKind := by simpa [Node.attrs?] using hroot
    simp only [ofNode, hkind, if_true] at hgap ⊢
    split_ifs at hgap ⊢ with h
    · exact absurd rfl hgap
    · exact ⟨_, rfl⟩

/-- A call in the main file has an entry if its type is printed for an instantiation of a class
template that is offered. The entry names that template; its parameters and its source are those of
a class template known by the qualified name, of one with a definition if there is any. -/
theorem call_has_entry (hroot : root.attrs?.any (·.kind = rootKind))
    (hgap : ofNode main root ≠ .error .gap) (hnames : root.HasPlainNames)
    (hd : d.IsOffered main root path) {v : Visit} (hv : v ∈ root.visits)
    (hcall : v.attrs.hasRole .construction) (hmain : Surveyed.inMain main v.start)
    (hk : d.IsPrinted path v.construction.canonical) (t : Trace) :
    ∃ s, ofNode main root = .ok s ∧
      ∃ i, (s.unit.census t).registry.find? v.construction.canonical = some i ∧
        i.type = v.construction.canonical ∧ i.template = d.attrs.name ∧
        ∃ e ∈ root.visits, e.attrs.hasRole .classTemplate ∧
          e.answersTo (qualify (path ++ [d.attrs.name])) ∧ i.params = paramNames e.children ∧
          i.source = (e.location.map (·.file)).getD "" ∧
          ∀ f ∈ root.visits, f.attrs.hasRole .classTemplate →
            f.answersTo (qualify (path ++ [d.attrs.name])) →
              (templated? f.children).any (·.isComplete) →
                (templated? e.children).any (·.isComplete) := by
  obtain ⟨s, hs⟩ := exists_ofNode_eq_ok hroot hgap
  have hshows := shows_of_ofNode hs
  obtain ⟨e, he, herole, heq, hename, horigin, hprefer⟩ := hd.exists_origin hshows hnames hk
  have hsite : v ∈ root.sites main v.construction.canonical :=
    List.mem_filter.mpr ⟨hv, by simp [hcall, hmain]⟩
  obtain ⟨w, hw⟩ := Option.isSome_iff_exists.mp
    (List.getLast?_isSome.mpr (List.ne_nil_of_mem hsite))
  have hwk : w.construction.canonical = v.construction.canonical :=
    Node.canonical_of_mem_sites (List.mem_of_getLast? hw)
  have hout := (hd.known e he herole heq).2
  refine ⟨s, hs, w.construction.instantiationOf e.template, ?_, hwk, hename, e, he, herole, heq, rfl,
    rfl, hprefer⟩
  exact hshows.find?_census_eq_some_iff.mpr ⟨e.template, horigin, hout, w, hw, rfl⟩

theorem call_has_entry_nested :
    ∃ s, ofNode "main.cc" nestedDump = .ok s ∧
      ∃ i, (s.unit.census {}).registry.find? "std::Map<pair<int, char>>::Cell<int (*)[2]>" =
        some i ∧ i.template = "Cell" := by
  have hgap : ofNode "main.cc" nestedDump ≠ .error .gap := by
    obtain ⟨s, hs⟩ := exists_ofNode_nestedDump
    rw [hs]
    exact nofun
  have hnames : nestedDump.HasPlainNames := by
    unfold Node.HasPlainNames
    decide +kernel
  let d := nestedDump.visits.get ⟨5, by decide +kernel⟩
  let v := nestedDump.visits.get ⟨8, by decide +kernel⟩
  have hd : d.IsOffered "main.cc" nestedDump ["std", "Map"] :=
    ⟨List.get_mem _ _, by decide +kernel, by decide +kernel, by decide +kernel, by decide +kernel,
      by decide +kernel⟩
  have hcanonical : v.construction.canonical = "std::Map<pair<int, char>>::Cell<int (*)[2]>" := by
    decide +kernel
  have hk : d.IsPrinted ["std", "Map"] v.construction.canonical := by
    refine ⟨by decide +kernel, ["std", "Map<pair<int, char>>"], "int (*)[2]", ?_, by decide,
      hcanonical⟩
    exact .cons (.inl rfl) (.cons (.inr ⟨"pair<int, char>", by decide, rfl⟩) .nil)
  obtain ⟨s, hs, i, hi, -, hname, -⟩ := call_has_entry (by decide +kernel) hgap hnames hd
    (List.get_mem _ _) (by decide +kernel) (by decide +kernel) hk {}
  rw [hcanonical] at hi
  exact ⟨s, hs, i, hi, hname⟩

end

end TemplateCensus.Dump
