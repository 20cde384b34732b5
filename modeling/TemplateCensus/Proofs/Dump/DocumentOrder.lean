import Mathlib.Data.List.Induction
import Mathlib.Tactic.SplitIfs
import TemplateCensus.Dump.Survey

/-! The nodes of a dump in document order, each with the nodes around it and with the cursor as it
is when its turn comes. The survey lists its findings along this order: constructor calls where
their nodes begin, class templates and specializations where their nodes end. -/

namespace TemplateCensus.Dump

mutual

def Node.inOrder : Node → List Attributes
  | .null => []
  | .mk a children => a :: inOrderAll children

def inOrderAll : List Node → List Attributes
  | [] => []
  | n :: ns => n.inOrder ++ inOrderAll ns

end

def Node.descendants : Node → List Attributes
  | .null => []
  | .mk _ children => inOrderAll children

def Cursor.passAll (c : Cursor) (as : List Attributes) : Cursor :=
  as.foldl (fun c a => (c.passNode a).2) c

theorem Cursor.passAll_append (c : Cursor) (as bs : List Attributes) :
    c.passAll (as ++ bs) = (c.passAll as).passAll bs := List.foldl_append

/-- A node where the survey meets it: the nodes around it, outermost first, and the cursor behind
all nodes before it. -/
structure Visit where
  above : List Attributes
  cursor : Cursor
  attrs : Attributes
  children : List Node

namespace Visit

def location (v : Visit) : Option Location := (v.cursor.passNode v.attrs).1.location

def start (v : Visit) : Option Location := (v.cursor.passNode v.attrs).1.start

def inside (v : Visit) : Cursor := (v.cursor.passNode v.attrs).2

end Visit

section
variable {α β : Type} (f g : Visit → List α)

mutual

def tour (above : List Attributes) (c : Cursor) : Node → List α
  | .null => []
  | .mk a children =>
    f ⟨above, c, a, children⟩ ++ tourAll (above ++ [a]) (c.passNode a).2 children ++
      g ⟨above, c, a, children⟩

def tourAll (above : List Attributes) (c : Cursor) : List Node → List α
  | [] => []
  | n :: ns => tour above c n ++ tourAll above (c.passAll n.inOrder) ns

end

end

def visits (above : List Attributes) (c : Cursor) (ns : List Node) : List Visit :=
  tourAll (fun v => [v]) (fun _ => []) above c ns

def endings (above : List Attributes) (c : Cursor) (ns : List Node) : List Visit :=
  tourAll (fun _ => []) (fun v => [v]) above c ns

section
variable {α β : Type} {f g : Visit → List α}

mutual

theorem flatMap_tour (h : α → List β) (above : List Attributes) (c : Cursor) :
    (n : Node) → (tour f g above c n).flatMap h =
      tour (fun v => (f v).flatMap h) (fun v => (g v).flatMap h) above c n
  | .null => rfl
  | .mk a children => by
    simp only [tour, List.flatMap_append, flatMap_tourAll h _ _ children]

theorem flatMap_tourAll (h : α → List β) (above : List Attributes) (c : Cursor) :
    (ns : List Node) → (tourAll f g above c ns).flatMap h =
      tourAll (fun v => (f v).flatMap h) (fun v => (g v).flatMap h) above c ns
  | [] => rfl
  | n :: ns => by
    simp only [tourAll, List.flatMap_append, flatMap_tour h _ _ n, flatMap_tourAll h _ _ ns]

end

theorem tourAll_begin (above : List Attributes) (c : Cursor) (ns : List Node) :
    tourAll f (fun _ => []) above c ns = (visits above c ns).flatMap f := by
  simp only [visits, flatMap_tourAll, List.flatMap_singleton, List.flatMap_nil]

theorem tourAll_end (above : List Attributes) (c : Cursor) (ns : List Node) :
    tourAll (fun _ => []) g above c ns = (endings above c ns).flatMap g := by
  simp only [endings, flatMap_tourAll, List.flatMap_singleton, List.flatMap_nil]

mutual

theorem tour_perm (f g : Visit → List α) (above : List Attributes) (c : Cursor) :
    (n : Node) → (tour f g above c n).Perm (tour (fun v => f v ++ g v) (fun _ => []) above c n)
  | .null => .nil
  | .mk a children => by
    have ih := tourAll_perm f g (above ++ [a]) (c.passNode a).2 children
    simp only [tour, List.append_nil, List.append_assoc]
    -- what is collected behind the children moves in front of them
    exact (List.perm_append_comm.trans (ih.append_left _)).append_left _

theorem tourAll_perm (f g : Visit → List α) (above : List Attributes) (c : Cursor) :
    (ns : List Node) →
      (tourAll f g above c ns).Perm (tourAll (fun v => f v ++ g v) (fun _ => []) above c ns)
  | [] => .nil
  | n :: ns => (tour_perm f g above c n).append (tourAll_perm f g above _ ns)

end

end

theorem endings_perm (above : List Attributes) (c : Cursor) (ns : List Node) :
    (endings above c ns).Perm (visits above c ns) :=
  tourAll_perm (fun _ => []) (fun v => [v]) above c ns

mutual

theorem mem_inOrder_of_mem_tour {above : List Attributes} {c : Cursor} {v : Visit} :
    (n : Node) → v ∈ tour (fun v => [v]) (fun _ => []) above c n →
      v.attrs ∈ n.inOrder ∧ ∀ a ∈ v.above, a ∈ above ∨ a ∈ n.inOrder
  | .null, h => nomatch h
  | .mk a children, h => by
    rw [tour, List.append_nil, List.mem_append, List.mem_singleton] at h
    rcases h with rfl | h
    · exact ⟨List.mem_cons_self, fun b hb => .inl hb⟩
    · obtain ⟨hv, habove⟩ := mem_inOrderAll_of_mem_tourAll children h
      refine ⟨List.mem_cons_of_mem _ hv, fun b hb => ?_⟩
      rcases habove b hb with hb | hb
      · rcases List.mem_append.mp hb with hb | hb
        · exact .inl hb
        · exact .inr (List.mem_singleton.mp hb ▸ List.mem_cons_self)
      · exact .inr (List.mem_cons_of_mem _ hb)

theorem mem_inOrderAll_of_mem_tourAll {above : List Attributes} {c : Cursor} {v : Visit} :
    (ns : List Node) → v ∈ tourAll (fun v => [v]) (fun _ => []) above c ns →
      v.attrs ∈ inOrderAll ns ∧ ∀ a ∈ v.above, a ∈ above ∨ a ∈ inOrderAll ns
  | [], h => nomatch h
  | n :: ns, h => by
    rw [inOrderAll]
    rcases List.mem_append.mp h with h | h
    · obtain ⟨hv, habove⟩ := mem_inOrder_of_mem_tour n h
      exact ⟨List.mem_append_left _ hv, fun a ha => (habove a ha).imp_right (List.mem_append_left _)⟩
    · obtain ⟨hv, habove⟩ := mem_inOrderAll_of_mem_tourAll ns h
      exact ⟨List.mem_append_right _ hv,
        fun a ha => (habove a ha).imp_right (List.mem_append_right _)⟩

end

/-! ## Kinds and names -/

def Role.kinds : Role → List String
  | construction => ["CXXConstructExpr", "CXXTemporaryObjectExpr"]
  | parameter => ["TemplateTypeParmDecl", "NonTypeTemplateParmDecl", "TemplateTemplateParmDecl"]
  | classTemplate => ["ClassTemplateDecl"]
  | scope => ["NamespaceDecl"]
  | record => ["CXXRecordDecl"]
  | specialization => ["ClassTemplateSpecializationDecl"]
  | partialSpecialization => ["ClassTemplatePartialSpecializationDecl"]
  | callable => ["FunctionDecl", "CXXMethodDecl", "CXXConstructorDecl", "CXXDestructorDecl",
      "CXXConversionDecl"]
  | other => []

theorem Role.ofKind_of_mem_kinds (r : Role) : ∀ k ∈ r.kinds, ofKind k = r := by
  cases r <;> decide

theorem Role.mem_kinds_ofKind {k : String} (h : ofKind k ≠ .other) : k ∈ (ofKind k).kinds := by
  unfold ofKind at h ⊢
  split_ifs at h ⊢ <;> simp_all [kinds]

namespace Attributes

def hasRole (a : Attributes) (r : Role) : Bool := r.kinds.contains a.kind

theorem hasRole_eq {a : Attributes} {r : Role} (hr : r ≠ .other) :
    a.hasRole r = decide (Role.ofKind a.kind = r) := by
  rw [hasRole, Bool.eq_iff_iff, List.contains_iff_mem, decide_eq_true_iff]
  constructor
  · exact Role.ofKind_of_mem_kinds r a.kind
  · rintro rfl
    exact Role.mem_kinds_ofKind hr

/-- A record that is written in the source; the implicit one only repeats the name of the record
around it. -/
def isWrittenRecord (a : Attributes) : Bool := a.hasRole .record && !a.isImplicit

def isRecord (a : Attributes) : Bool :=
  a.isWrittenRecord || a.hasRole .specialization || a.hasRole .partialSpecialization

def scope? (a : Attributes) : Option Scope :=
  if a.hasRole .scope then
    some (if a.name = "" then ⟨"(anonymous namespace)", true⟩ else ⟨a.name, a.isInline⟩)
  else if a.isRecord then some ⟨a.name, false⟩
  else none

def enclosing? (a : Attributes) : Option Enclosing :=
  if a.hasRole .scope || a.hasRole .callable then some (.named a.kind a.name)
  else if a.isRecord then some (.record a.tag a.name)
  else none

end Attributes

open Attributes

def around (above : List Attributes) : Surroundings := above.foldl Surroundings.below {}

theorem around_concat (above : List Attributes) (a : Attributes) :
    around (above ++ [a]) = (around above).below a := by
  simp only [around, List.foldl_append, List.foldl_cons, List.foldl_nil]

theorem scopes_below (s : Surroundings) (a : Attributes) :
    (s.below a).scopes = s.scopes ++ a.scope?.toList := by
  unfold Surroundings.below scope?
  cases h : Role.ofKind a.kind <;> cases hi : a.isImplicit <;>
    simp [isRecord, isWrittenRecord, hasRole_eq, h, hi, Surroundings.inside, Surroundings.plain,
      Scope.ofNamespace]

theorem context_below (s : Surroundings) (a : Attributes) :
    (s.below a).context = s.context ++ a.enclosing?.toList := by
  unfold Surroundings.below enclosing?
  cases h : Role.ofKind a.kind <;> cases hi : a.isImplicit <;>
    simp [isRecord, isWrittenRecord, hasRole_eq, h, hi, Surroundings.inside, Surroundings.plain]

theorem filterMap_one {α β : Type} (f : α → Option β) (a : α) :
    [a].filterMap f = (f a).toList := by
  cases h : f a <;> simp [h]

theorem scopes_around (above : List Attributes) :
    (around above).scopes = above.filterMap scope? := by
  induction above using List.reverseRecOn with
  | nil => rfl
  | append_singleton above a ih =>
    rw [around_concat, scopes_below, ih, List.filterMap_append, filterMap_one]

theorem context_around (above : List Attributes) :
    (around above).context = above.filterMap enclosing? := by
  induction above using List.reverseRecOn with
  | nil => rfl
  | append_singleton above a ih =>
    rw [around_concat, context_below, ih, List.filterMap_append, filterMap_one]

namespace Visit

def scopes (v : Visit) : List Scope := v.above.filterMap scope?

def context (v : Visit) : Context := v.above.filterMap enclosing?

def fullName (v : Visit) : String := Spelling.qualify (v.scopes.map (·.name) ++ [v.attrs.name])

def visibleName (v : Visit) : String :=
  Spelling.qualify ((v.scopes.filter (!·.isTransparent)).map (·.name) ++ [v.attrs.name])

theorem fullName_eq (v : Visit) : v.fullName = (around v.above).fullName v.attrs.name := by
  rw [fullName, Surroundings.fullName, scopes_around, scopes]

theorem visibleName_eq (v : Visit) :
    v.visibleName = (around v.above).visibleName v.attrs.name := by
  rw [visibleName, Surroundings.visibleName, scopes_around, scopes]

/-! ## The survey along the order -/

def inner (v : Visit) : Findings :=
  (surveyAll (around (v.above ++ [v.attrs])) v.inside v.children).1

def finding (v : Visit) : Findings :=
  report (around v.above) v.attrs v.children (v.cursor.passNode v.attrs).1 v.inner

end Visit

mutual

theorem survey_cursor (s : Surroundings) (c : Cursor) :
    (n : Node) → (survey s c n).2 = c.passAll n.inOrder
  | .null => rfl
  | .mk a children => by
    rw [survey, Node.inOrder]
    exact surveyAll_cursor (s.below a) (c.passNode a).2 children

theorem surveyAll_cursor (s : Surroundings) (c : Cursor) :
    (ns : List Node) → (surveyAll s c ns).2 = c.passAll (inOrderAll ns)
  | [] => rfl
  | n :: ns => by
    rw [surveyAll, inOrderAll, Cursor.passAll_append, ← survey_cursor s c n]
    exact surveyAll_cursor s _ ns

end

section
variable {α : Type} {p : Findings → List α} {f g : Visit → List α}

mutual

theorem survey_eq_tour (hnil : p {} = []) (happ : ∀ x y, p (x ++ y) = p x ++ p y)
    (hv : ∀ v : Visit, p v.finding = f v ++ p v.inner ++ g v) (above : List Attributes)
    (c : Cursor) : (n : Node) → p (survey (around above) c n).1 = tour f g above c n
  | .null => hnil
  | .mk a children => by
    have ih := surveyAll_eq_tourAll hnil happ hv (above ++ [a]) (c.passNode a).2 children
    rw [tour, ← ih]
    -- the surroundings of the children are those of the path with this node at its end
    refine Eq.trans ?_ (hv ⟨above, c, a, children⟩)
    rw [Visit.finding, Visit.inner, around_concat]
    rfl

/-- A part of the findings that is combined by `++` is collected along the order, if each node adds
to it in front of and behind what its children found. -/
theorem surveyAll_eq_tourAll (hnil : p {} = []) (happ : ∀ x y, p (x ++ y) = p x ++ p y)
    (hv : ∀ v : Visit, p v.finding = f v ++ p v.inner ++ g v) (above : List Attributes)
    (c : Cursor) : (ns : List Node) → p (surveyAll (around above) c ns).1 = tourAll f g above c ns
  | [] => hnil
  | n :: ns => by
    rw [tourAll, ← survey_eq_tour hnil happ hv above c n, ← survey_cursor (around above) c n,
      ← surveyAll_eq_tourAll hnil happ hv above _ ns, ← happ]
    rfl

end

end

/-! ## Direct children -/

def Node.attrs? : Node → Option Attributes
  | .null => none
  | .mk a _ => some a

def paramNames (ns : List Node) : List String :=
  ((ns.filterMap Node.attrs?).filter (·.hasRole .parameter)).map (·.name)

def templated? (ns : List Node) : Option Attributes :=
  (ns.filterMap Node.attrs?).find? isWrittenRecord

theorem params_report (s : Surroundings) (a : Attributes) (children : List Node) (here : Place)
    (inner : Findings) :
    (report s a children here inner).params = if a.hasRole .parameter then [a.name] else [] := by
  unfold report
  cases h : Role.ofKind a.kind <;> simp only [hasRole_eq, h, ne_eq, reduceCtorEq,
    not_false_eq_true, decide_false, decide_true, ite_true, ite_false, Bool.false_eq_true]
  case record => cases a.isImplicit <;> rfl
  case specialization => cases argumentsOf? children <;> rfl
  all_goals rfl

theorem templatedRecord_report (s : Surroundings) (a : Attributes) (children : List Node)
    (here : Place) (inner : Findings) :
    (report s a children here inner).record = if a.isWrittenRecord then
      some ⟨a.name, a.tag, a.isComplete, here.location, s.context⟩ else none := by
  unfold report isWrittenRecord
  cases h : Role.ofKind a.kind <;> simp only [hasRole_eq, h, ne_eq, reduceCtorEq,
    not_false_eq_true, decide_false, decide_true, Bool.false_and, Bool.true_and]
  case record => cases a.isImplicit <;> rfl
  case specialization => cases argumentsOf? children <;> rfl
  all_goals rfl

theorem record_report (s : Surroundings) (a : Attributes) (children : List Node) (here : Place)
    (inner : Findings) :
    (report s a children here inner).record.map (·.isDefinition) =
      if a.isWrittenRecord then some a.isComplete else none := by
  rw [templatedRecord_report]
  split <;> rfl

theorem params_surveyAll (s : Surroundings) (c : Cursor) (ns : List Node) :
    (surveyAll s c ns).1.params = paramNames ns := by
  induction ns generalizing c with
  | nil => rfl
  | cons n ns ih =>
    have hadd : (surveyAll s c (n :: ns)).1.params =
        (survey s c n).1.params ++ (surveyAll s (survey s c n).2 ns).1.params := rfl
    rw [hadd, ih]
    cases n with
    | null => rfl
    | mk a children =>
      have hn : (survey s c (.mk a children)).1.params =
          if a.hasRole .parameter then [a.name] else [] := params_report _ _ _ _ _
      rw [hn]
      cases hp : a.hasRole .parameter <;> simp [paramNames, Node.attrs?, hp]

theorem record_surveyAll (s : Surroundings) (c : Cursor) (ns : List Node) :
    (surveyAll s c ns).1.record.map (·.isDefinition) = (templated? ns).map (·.isComplete) := by
  induction ns generalizing c with
  | nil => rfl
  | cons n ns ih =>
    have hadd : (surveyAll s c (n :: ns)).1.record =
        (survey s c n).1.record.or (surveyAll s (survey s c n).2 ns).1.record := rfl
    rw [hadd, Option.map_or, ih]
    cases n with
    | null => rfl
    | mk a children =>
      have hn : (survey s c (.mk a children)).1.record.map (·.isDefinition) =
          if a.isWrittenRecord then some a.isComplete else none := record_report _ _ _ _ _
      rw [hn]
      cases hr : a.isWrittenRecord <;> simp [templated?, Node.attrs?, hr]

/-! ## Findings -/

namespace Visit

def construction (v : Visit) : Construction := ⟨v.attrs.type, none, v.start, v.context⟩

def template (v : Visit) : ClassTemplate :=
  ⟨v.attrs.name, paramNames v.children, v.location, v.context, v.inner.record⟩

def named {α : Type} (v : Visit) (item : α) : Named α :=
  ⟨v.fullName, v.visibleName, v.attrs.name, item⟩

def specialization? (v : Visit) : Option Specialization :=
  (argumentsOf? v.children).map fun args =>
    ⟨args, v.location, v.inner.injected, (around v.above).inTemplate⟩

theorem record_template (v : Visit) :
    v.template.record.map (·.isDefinition) = (templated? v.children).map (·.isComplete) :=
  record_surveyAll _ _ _

theorem isSome_record_template (v : Visit) :
    v.template.record.isSome = (templated? v.children).isSome := by
  rw [← Option.isSome_map (f := (·.isDefinition)), record_template, Option.isSome_map]

theorem any_isDefinition_template (v : Visit) :
    v.template.record.any (·.isDefinition) = (templated? v.children).any (·.isComplete) := by
  have h := congrArg (Option.any id) v.record_template
  rwa [Option.any_map, Option.any_map] at h

theorem constructions_finding (v : Visit) :
    v.finding.constructions =
      (if v.attrs.hasRole .construction then [v.construction] else []) ++
        v.inner.constructions ++ [] := by
  unfold finding report construction
  rw [context, ← context_around]
  cases h : Role.ofKind v.attrs.kind <;> simp [hasRole_eq, h, Findings.apart, Findings.enclosed]
  case construction => rfl
  case record => cases v.attrs.isImplicit <;> rfl
  case specialization => cases argumentsOf? v.children <;> rfl

theorem templates_finding (v : Visit) :
    v.finding.templates = [] ++ v.inner.templates ++
      (if v.attrs.hasRole .classTemplate then [v.named v.template] else []) := by
  unfold finding report named template
  rw [context, ← context_around, fullName_eq, visibleName_eq]
  cases h : Role.ofKind v.attrs.kind <;> simp [hasRole_eq, h, Findings.apart, Findings.enclosed]
  case classTemplate => exact ⟨params_surveyAll _ _ _, rfl⟩
  case record => cases v.attrs.isImplicit <;> rfl
  case specialization => cases argumentsOf? v.children <;> rfl

theorem specializations_finding (v : Visit) :
    v.finding.specializations = [] ++ v.inner.specializations ++
      (if v.attrs.hasRole .specialization then (v.specialization?.map v.named).toList else []) := by
  unfold finding report named specialization?
  rw [fullName_eq, visibleName_eq]
  cases h : Role.ofKind v.attrs.kind <;> simp [hasRole_eq, h, Findings.apart, Findings.enclosed]
  case record => cases v.attrs.isImplicit <;> rfl
  case specialization =>
    cases argumentsOf? v.children with
    | none => exact (List.append_nil _).symm
    | some args => rfl

end Visit

theorem flatMap_ite {α β : Type} (q : α → Bool) (h : α → β) (xs : List α) :
    xs.flatMap (fun x => if q x then [h x] else []) = (xs.filter q).map h := by
  induction xs with
  | nil => rfl
  | cons x xs ih => cases hx : q x <;> simp [hx, ih]

def Node.visits : Node → List Visit
  | .null => []
  | .mk _ children => Dump.visits [] {} children

theorem Node.mem_descendants_of_mem_visits {root : Node} {v : Visit} (h : v ∈ root.visits) :
    v.attrs ∈ root.descendants ∧ ∀ a ∈ v.above, a ∈ root.descendants := by
  cases root with
  | null => exact nomatch h
  | mk a children =>
    obtain ⟨hv, habove⟩ := mem_inOrderAll_of_mem_tourAll children h
    exact ⟨hv, fun a ha => (habove a ha).resolve_left List.not_mem_nil⟩

theorem constructions_surveyAll (ns : List Node) :
    (surveyAll {} {} ns).1.constructions =
      ((visits [] {} ns).filter (·.attrs.hasRole .construction)).map Visit.construction := by
  rw [← flatMap_ite, ← tourAll_begin]
  exact surveyAll_eq_tourAll rfl (fun _ _ => rfl) Visit.constructions_finding [] {} ns

theorem templates_surveyAll (ns : List Node) :
    (surveyAll {} {} ns).1.templates =
      ((endings [] {} ns).filter (·.attrs.hasRole .classTemplate)).map
        fun v => v.named v.template := by
  rw [← flatMap_ite, ← tourAll_end]
  exact surveyAll_eq_tourAll rfl (fun _ _ => rfl) Visit.templates_finding [] {} ns

theorem specializations_surveyAll (ns : List Node) :
    (surveyAll {} {} ns).1.specializations = (endings [] {} ns).flatMap fun v =>
      if v.attrs.hasRole .specialization then (v.specialization?.map v.named).toList else [] := by
  rw [← tourAll_end]
  exact surveyAll_eq_tourAll rfl (fun _ _ => rfl) Visit.specializations_finding [] {} ns

theorem mem_templates_surveyAll {ns : List Node} {t : Named ClassTemplate} :
    t ∈ (surveyAll {} {} ns).1.templates ↔
      ∃ v ∈ visits [] {} ns, v.attrs.hasRole .classTemplate ∧ v.named v.template = t := by
  simp only [templates_surveyAll, List.mem_map, List.mem_filter, (endings_perm [] {} ns).mem_iff,
    and_assoc]

theorem exists_of_mem_specializations_surveyAll {ns : List Node} {t : Named Specialization}
    (h : t ∈ (surveyAll {} {} ns).1.specializations) :
    ∃ v ∈ visits [] {} ns, v.attrs.hasRole .specialization ∧ ∃ s, v.named s = t := by
  rw [specializations_surveyAll, List.mem_flatMap] at h
  obtain ⟨v, hv, ht⟩ := h
  rw [(endings_perm [] {} ns).mem_iff] at hv
  split at ht
  · next hrole =>
    obtain ⟨s, -, hs⟩ := Option.map_eq_some_iff.mp (Option.mem_toList.mp ht)
    exact ⟨v, hv, hrole, s, hs⟩
  · exact nomatch ht

end TemplateCensus.Dump
