import TemplateCensus.Dump.Unit
import TemplateCensus.Proofs.Dump.DocumentOrder

/-! Dumps that say less. A printer may leave out the file or the line of a position where it equals
that of the last valid position before it, in document order. Whatever it leaves out in this way,
the unit of the dump stays the same. -/

namespace TemplateCensus.Dump

/-! ## Positions in document order -/

def pointOf (s : Option Spot) : List Point := (s.map Spot.point).toList

def pointsOf : Option Spot → List Point
  | none => []
  | some s =>
    if s.spelling.isSome || s.expansion.isSome then pointOf s.spelling ++ pointOf s.expansion
    else [s.point]

def Attributes.points (a : Attributes) : List Point :=
  pointsOf a.location ++ pointsOf a.start ++ pointsOf a.stop

def Node.points (root : Node) : List Point := root.descendants.flatMap Attributes.points

def Point.isFull (p : Point) : Bool := p.offset.isSome && p.file ≠ "" && p.line ≠ 0

/-! ## Leaving out what is known -/

/-- How far a printer has come: the number of points behind it and the last valid one of them. -/
structure Trail where
  count : Nat := 0
  last : Option Point := none

/-- The points whose file, and those whose line, is to be left out if it can be, by their numbers
in document order. -/
structure Omission where
  file : Nat → Bool
  line : Nat → Bool

namespace Omission

variable (o : Omission)

def point (t : Trail) (p : Point) : Point × Trail :=
  ({ p with
      file := if o.file t.count && t.last.any (·.file = p.file) then "" else p.file
      line := if o.line t.count && t.last.any (·.line = p.line) then 0 else p.line },
    ⟨t.count + 1, if p.isValid then some p else t.last⟩)

def spotPoint (t : Trail) : Option Spot → Option Spot × Trail
  | none => (none, t)
  | some s =>
    let (p, t) := o.point t s.point
    (some (.mk p s.spelling s.expansion), t)

def spot (t : Trail) : Option Spot → Option Spot × Trail
  | none => (none, t)
  | some s =>
    if s.spelling.isSome || s.expansion.isSome then
      let (spelling, t) := o.spotPoint t s.spelling
      let (expansion, t) := o.spotPoint t s.expansion
      (some (.mk s.point spelling expansion), t)
    else o.spotPoint t (some s)

def attributes (t : Trail) (a : Attributes) : Attributes × Trail :=
  let (location, t) := o.spot t a.location
  let (start, t) := o.spot t a.start
  let (stop, t) := o.spot t a.stop
  ({ a with location, start, stop }, t)

mutual

def node (t : Trail) : Node → Node × Trail
  | .null => (.null, t)
  | .mk a children =>
    let (a, t) := o.attributes t a
    let (children, t) := nodes t children
    (.mk a children, t)

def nodes (t : Trail) : List Node → List Node × Trail
  | [] => ([], t)
  | n :: ns =>
    let (n, t) := node t n
    let (ns, t) := nodes t ns
    (n :: ns, t)

end

def dump : Node → Node
  | .null => .null
  | .mk a children => .mk a (o.nodes {} children).1

end Omission

/-! ## The cursor knows what is left out -/

theorem Point.isFull_iff {p : Point} : p.isFull ↔ p.offset.isSome ∧ p.file ≠ "" ∧ p.line ≠ 0 := by
  simp [isFull, and_assoc]

namespace Cursor

variable {c : Cursor} {p : Point}

theorem pass_of_isValid (h : p.isValid) :
    c.pass p = (some ⟨if p.file = "" then c.file else p.file, if p.line = 0 then c.line else p.line,
      p.column, p.includedFrom⟩,
      ⟨if p.file = "" then c.file else p.file, if p.line = 0 then c.line else p.line⟩) := if_pos h

theorem pass_of_not_isValid (h : ¬p.isValid) : c.pass p = (none, c) := if_neg h

theorem pass_of_isFull (h : p.isFull) :
    c.pass p = (some ⟨p.file, p.line, p.column, p.includedFrom⟩, ⟨p.file, p.line⟩) := by
  obtain ⟨hoffset, hfile, hline⟩ := Point.isFull_iff.mp h
  rw [pass_of_isValid (by simp [Point.isValid, hoffset]), if_neg hfile, if_neg hline]

end Cursor

def Trail.LeadsTo (t : Trail) (c : Cursor) : Prop := ∀ r ∈ t.last, c = ⟨r.file, r.line⟩

theorem Trail.LeadsTo.exists_of_any {t : Trail} {c : Cursor} (ht : t.LeadsTo c) {q : Point → Bool}
    (h : t.last.any q) : ∃ r : Point, c = ⟨r.file, r.line⟩ ∧ q r := by
  obtain ⟨r, hr, hq⟩ := (Option.any_eq_true _ _).mp h
  exact ⟨r, ht r hr, hq⟩

theorem restored {α : Type} [DecidableEq α] {cut : Bool} {blank x held : α} (hx : x ≠ blank)
    (hcut : cut → held = x) :
    (if (if cut then blank else x) = blank then held else if cut then blank else x) = x := by
  cases cut with
  | true => exact (if_pos rfl).trans (hcut rfl)
  | false => exact if_neg hx

namespace Omission

variable {o : Omission} {t : Trail} {c : Cursor}

theorem isValid_point {p : Point} (h : p.isValid → p.isFull) :
    (o.point t p).1.isValid = p.isValid := by
  cases hv : p.isValid with
  | true =>
    have hoffset := (Point.isFull_iff.mp (h hv)).1
    simp [point, Point.isValid, hoffset]
  | false =>
    have hf : p.file = "" := by
      rw [Point.isValid, Bool.or_eq_false_iff] at hv
      simpa using hv.2
    have hp : (o.point t p).1.file = p.file := by simp [point, hf]
    rw [← hv, Point.isValid, Point.isValid, hp]
    rfl

/-- One point: the cursor resolves it as before and again stands on the last valid point. -/
theorem pass_point (ht : t.LeadsTo c) {p : Point} (h : p.isValid → p.isFull) :
    c.pass (o.point t p).1 = c.pass p ∧ (o.point t p).2.LeadsTo (c.pass p).2 := by
  have hsame := isValid_point (o := o) (t := t) h
  by_cases hv : p.isValid
  · obtain ⟨-, hfne, hlne⟩ := Point.isFull_iff.mp (h hv)
    -- only what the cursor holds is left out, since it stands on the last valid point
    have hfile : (if (o.point t p).1.file = "" then c.file else (o.point t p).1.file) = p.file := by
      refine restored hfne fun hcut => ?_
      obtain ⟨r, rfl, hr⟩ := ht.exists_of_any (Bool.and_eq_true_iff.mp hcut).2
      exact of_decide_eq_true hr
    have hline : (if (o.point t p).1.line = 0 then c.line else (o.point t p).1.line) = p.line := by
      refine restored hlne fun hcut => ?_
      obtain ⟨r, rfl, hr⟩ := ht.exists_of_any (Bool.and_eq_true_iff.mp hcut).2
      exact of_decide_eq_true hr
    constructor
    · rw [Cursor.pass_of_isValid (hsame.trans hv), hfile, hline, Cursor.pass_of_isFull (h hv)]
      rfl
    · rw [Cursor.pass_of_isFull (h hv)]
      intro r hr
      simp only [point, hv, if_true, Option.mem_def, Option.some.injEq] at hr
      rw [hr]
  · constructor
    · rw [Cursor.pass_of_not_isValid hv, Cursor.pass_of_not_isValid (by rwa [hsame])]
    · rw [Cursor.pass_of_not_isValid hv]
      intro r hr
      simp only [point, hv] at hr
      exact ht r hr

theorem passPoint_spotPoint (ht : t.LeadsTo c) {s : Option Spot}
    (h : ∀ p ∈ pointOf s, p.isValid → p.isFull) :
    c.passPoint (o.spotPoint t s).1 = c.passPoint s ∧
      (o.spotPoint t s).2.LeadsTo (c.passPoint s).2 := by
  cases s with
  | none => exact ⟨rfl, ht⟩
  | some s => exact pass_point ht (h s.point (List.mem_singleton_self _))

theorem isSome_spotPoint (s : Option Spot) : (o.spotPoint t s).1.isSome = s.isSome := by
  cases s <;> rfl

theorem passSpot_spot (ht : t.LeadsTo c) {s : Option Spot}
    (h : ∀ p ∈ pointsOf s, p.isValid → p.isFull) :
    c.passSpot (o.spot t s).1 = c.passSpot s ∧ (o.spot t s).2.LeadsTo (c.passSpot s).2 := by
  rcases s with _ | ⟨p, sp, ex⟩
  · exact ⟨rfl, ht⟩
  by_cases hm : sp.isSome || ex.isSome
  · have hpoints : pointsOf (some (.mk p sp ex)) = pointOf sp ++ pointOf ex := if_pos hm
    rw [hpoints] at h
    obtain ⟨hsp, ht⟩ := passPoint_spotPoint (o := o) ht fun p hp => h p (List.mem_append_left _ hp)
    obtain ⟨hex, ht⟩ := passPoint_spotPoint (o := o) ht fun p hp =>
      h p (List.mem_append_right _ hp)
    have hspot : o.spot t (some (.mk p sp ex)) =
        (some (.mk p (o.spotPoint t sp).1 (o.spotPoint (o.spotPoint t sp).2 ex).1),
          (o.spotPoint (o.spotPoint t sp).2 ex).2) := if_pos hm
    have hpass : ∀ sp ex : Option Spot, (sp.isSome || ex.isSome) →
        c.passSpot (some (.mk p sp ex)) = (c.passPoint sp).2.passPoint ex := fun _ _ h => if_pos h
    rw [hspot, hpass _ _ hm, hpass _ _ (by rwa [isSome_spotPoint, isSome_spotPoint]), hsp, hex]
    exact ⟨rfl, ht⟩
  · have hpoints : pointsOf (some (.mk p sp ex)) = [p] := if_neg hm
    rw [hpoints] at h
    have hspot : o.spot t (some (.mk p sp ex)) =
        (some (.mk (o.point t p).1 sp ex), (o.point t p).2) := if_neg hm
    have hpass : ∀ q : Point, c.passSpot (some (.mk q sp ex)) = c.pass q := fun _ => if_neg hm
    rw [hspot, hpass, hpass]
    exact pass_point ht (h p (List.mem_singleton_self _))

theorem passNode_attributes (ht : t.LeadsTo c) {a : Attributes}
    (h : ∀ p ∈ a.points, p.isValid → p.isFull) :
    c.passNode (o.attributes t a).1 = c.passNode a ∧
      (o.attributes t a).2.LeadsTo (c.passNode a).2 := by
  simp only [Attributes.points, List.mem_append] at h
  obtain ⟨hloc, ht⟩ := passSpot_spot (o := o) ht fun p hp => h p (.inl (.inl hp))
  obtain ⟨hstart, ht⟩ := passSpot_spot (o := o) ht fun p hp => h p (.inl (.inr hp))
  obtain ⟨hstop, ht⟩ := passSpot_spot (o := o) ht fun p hp => h p (.inr hp)
  simp only [Cursor.passNode, attributes, hloc, hstart, hstop]
  exact ⟨trivial, ht⟩

/-! ## The survey of the shorter dump -/

mutual

theorem argumentTexts?_node (t : Trail) :
    (n : Node) → argumentTexts? (o.node t n).1 = argumentTexts? n
  | .null => rfl
  | .mk a children => by
    have hchildren : (o.nodes (o.attributes t a).2 children).1.isEmpty = children.isEmpty := by
      cases children <;> rfl
    rw [node]
    simp only [argumentTexts?, hchildren, argumentsOf?_nodes _ children]
    rfl

theorem argumentsOf?_nodes (t : Trail) :
    (ns : List Node) → argumentsOf? (o.nodes t ns).1 = argumentsOf? ns
  | [] => rfl
  | n :: ns => by
    rw [nodes]
    simp only [argumentsOf?, argumentTexts?_node t n, argumentsOf?_nodes _ ns]

end

theorem report_attributes (s : Surroundings) (a : Attributes) (children : List Node) (here : Place)
    (inner : Findings) :
    report s (o.attributes t a).1 (o.nodes (o.attributes t a).2 children).1 here inner =
      report s a children here inner := by
  simp only [report, argumentsOf?_nodes]
  rfl

mutual

theorem survey_node (s : Surroundings) {t : Trail} {c : Cursor} (ht : t.LeadsTo c) : (n : Node) →
    (∀ p ∈ n.inOrder.flatMap Attributes.points, p.isValid → p.isFull) →
      survey s c (o.node t n).1 = survey s c n ∧ (o.node t n).2.LeadsTo (survey s c n).2
  | .null, _ => ⟨rfl, ht⟩
  | .mk a children, h => by
    rw [Node.inOrder, List.flatMap_cons, List.forall_mem_append] at h
    obtain ⟨hhere, ht⟩ := passNode_attributes (o := o) ht h.1
    obtain ⟨hinner, ht⟩ := surveyAll_nodes (s.below a) ht children h.2
    have hbelow : s.below (o.attributes t a).1 = s.below a := rfl
    simp only [node, survey, hhere, hbelow, hinner, report_attributes]
    exact ⟨trivial, ht⟩

theorem surveyAll_nodes (s : Surroundings) {t : Trail} {c : Cursor} (ht : t.LeadsTo c) :
    (ns : List Node) →
    (∀ p ∈ (inOrderAll ns).flatMap Attributes.points, p.isValid → p.isFull) →
      surveyAll s c (o.nodes t ns).1 = surveyAll s c ns ∧
        (o.nodes t ns).2.LeadsTo (surveyAll s c ns).2
  | [], _ => ⟨rfl, ht⟩
  | n :: ns, h => by
    rw [inOrderAll, List.flatMap_append, List.forall_mem_append] at h
    obtain ⟨hfirst, ht⟩ := survey_node s ht n h.1
    obtain ⟨hothers, ht⟩ := surveyAll_nodes s ht ns h.2
    simp only [nodes, surveyAll, hfirst, hothers]
    exact ⟨trivial, ht⟩

end

end Omission

/-- Leaving out files and lines that equal those of the last valid position before, at any choice of
positions below the root, does not change what is read from a dump. -/
theorem ofNode_omission (o : Omission) (main : String) (root : Node)
    (h : ∀ p ∈ root.points, p.isValid → p.isFull) :
    ofNode main (o.dump root) = ofNode main root := by
  cases root with
  | null => rfl
  | mk a children =>
    have hstart : ({} : Trail).LeadsTo {} := fun r hr => nomatch hr
    have hsurvey := (Omission.surveyAll_nodes (o := o) {} hstart children h).1
    simp only [Omission.dump, ofNode, hsurvey]

theorem ofNode_omission_macro :
    let spot (file : String) (line column : Int) : Option Spot :=
      some (.mk ⟨some 0, file, line, column, ""⟩ none none)
    let cut (line column : Int) : Option Spot := some (.mk ⟨some 0, "", line, column, ""⟩ none none)
    let within (spelling expansion : Option Spot) : Option Spot := some (.mk {} spelling expansion)
    let dump (spots : List (Option Spot)) : Node := .mk { kind := rootKind } [
      .mk { kind := "ClassTemplateDecl", name := "Box", location := spots.getD 0 none,
            start := spots.getD 1 none } [.mk { kind := "CXXRecordDecl", name := "Box" } []],
      .null,
      .mk { kind := "CXXConstructExpr", type := some ⟨"Box<int>", ""⟩, start := spots.getD 2 none,
            stop := spots.getD 3 none } []]
    let full := dump [spot "box.h" 3 7, spot "box.h" 3 1,
      within (spot "box.h" 9 5) (spot "main.cc" 9 2), spot "main.cc" 9 8]
    let short := dump [spot "box.h" 3 7, cut 0 1, within (cut 9 5) (spot "main.cc" 0 2), cut 0 8]
    (∀ p ∈ full.points, p.isValid → p.isFull) ∧
      (Omission.mk (fun _ => true) fun _ => true).dump full = short ∧
      ofNode "main.cc" short = ofNode "main.cc" full := by
  intro spot cut within dump full short
  have hfull : ∀ p ∈ full.points, p.isValid → p.isFull := by decide +kernel
  have hshort : (Omission.mk (fun _ => true) fun _ => true).dump full = short := by rfl
  refine ⟨hfull, hshort, ?_⟩
  rw [← hshort]
  exact ofNode_omission _ "main.cc" full hfull

end TemplateCensus.Dump
