import TemplateCensus.Proofs.Dump.Omission
import TemplateCensus.Proofs.Dump.Addresses

/-! Constructor calls at their addresses. Every call of a dump is listed once, where its node
begins, with the declarations on the way down to it and none of those that the walk has left behind.
A file or line that its source position leaves out is the last one that the dump has printed. -/

namespace TemplateCensus.Dump

/-! ## What a position leaves out -/

def latest {α : Type} [DecidableEq α] (blank : α) (xs : List α) : α :=
  (xs.filter (· ≠ blank)).getLastD blank

theorem latest_concat {α : Type} [DecidableEq α] (blank : α) (xs : List α) (x : α) :
    latest blank (xs ++ [x]) = if x = blank then latest blank xs else x := by
  rw [latest, latest, List.filter_append]
  split
  · next h => simp [h]
  · next h => simp [h]

def Cursor.behind (ps : List Point) : Cursor :=
  ⟨latest "" ((ps.filter Point.isValid).map (·.file)),
    latest 0 ((ps.filter Point.isValid).map (·.line))⟩

def Point.resolved? (earlier : List Point) (p : Point) : Option Location :=
  if p.isValid then
    let c := Cursor.behind (earlier ++ [p])
    some ⟨c.file, c.line, p.column, p.includedFrom⟩
  else none

/-- The location of a position behind earlier points; inside a macro expansion, where the macro is
expanded. -/
def resolvedSpot? (earlier : List Point) : Option Spot → Option Location
  | none => none
  | some s =>
    if s.spelling.isSome || s.expansion.isSome then
      s.expansion.bind fun e => e.point.resolved? (earlier ++ pointOf s.spelling)
    else s.point.resolved? earlier

namespace Cursor

theorem behind_concat (ps : List Point) (p : Point) :
    behind (ps ++ [p]) = if p.isValid then
      ⟨if p.file = "" then (behind ps).file else p.file,
        if p.line = 0 then (behind ps).line else p.line⟩ else behind ps := by
  unfold behind
  rw [List.filter_append]
  split
  · next h =>
    rw [List.filter_cons_of_pos h, List.filter_nil, List.map_append, List.map_append]
    exact congrArg₂ Cursor.mk (latest_concat _ _ _) (latest_concat _ _ _)
  · next h => rw [List.filter_cons_of_neg h, List.filter_nil, List.append_nil]

theorem pass_behind (ps : List Point) (p : Point) :
    (behind ps).pass p = (p.resolved? ps, behind (ps ++ [p])) := by
  rw [pass, Point.resolved?, behind_concat]
  split <;> rfl

theorem passPoint_behind (ps : List Point) (s : Option Spot) :
    (behind ps).passPoint s =
      (s.bind fun s => s.point.resolved? ps, behind (ps ++ pointOf s)) := by
  cases s with
  | none => simp [passPoint, pointOf]
  | some s => exact pass_behind ps s.point

theorem passSpot_behind (ps : List Point) (s : Option Spot) :
    (behind ps).passSpot s = (resolvedSpot? ps s, behind (ps ++ pointsOf s)) := by
  cases s with
  | none => simp [passSpot, resolvedSpot?, pointsOf]
  | some s =>
    simp only [passSpot, resolvedSpot?, pointsOf]
    split
    · rw [passPoint_behind, passPoint_behind, List.append_assoc]
    · exact pass_behind ps s.point

theorem passNode_behind (ps : List Point) (a : Attributes) :
    (behind ps).passNode a =
      (⟨resolvedSpot? ps a.location, resolvedSpot? (ps ++ pointsOf a.location) a.start⟩,
        behind (ps ++ a.points)) := by
  simp only [passNode, passSpot_behind, Attributes.points, List.append_assoc]

theorem passAll_behind (ps : List Point) (as : List Attributes) :
    (behind ps).passAll as = behind (ps ++ as.flatMap Attributes.points) := by
  induction as generalizing ps with
  | nil => simp [passAll]
  | cons a as ih =>
    have hstep : (behind ps).passAll (a :: as) = (behind (ps ++ a.points)).passAll as := by
      rw [passAll, List.foldl_cons, passNode_behind]
      rfl
    rw [hstep, ih, List.flatMap_cons, List.append_assoc]

end Cursor

def Node.pointsBefore (root : Node) (p : List Nat) : List Point :=
  (root.before p).flatMap Attributes.points

theorem Node.passNode_of_visit? {root : Node} {p : List Nat} {v : Visit}
    (h : root.visit? p = some v) :
    (v.cursor.passNode v.attrs).1 =
      ⟨resolvedSpot? (root.pointsBefore p) v.attrs.location,
        resolvedSpot? (root.pointsBefore p ++ pointsOf v.attrs.location) v.attrs.start⟩ := by
  have hcursor : v.cursor = Cursor.behind (root.pointsBefore p) := by
    rw [cursor_of_visit? h]
    exact Cursor.passAll_behind [] (root.before p)
  rw [hcursor, Cursor.passNode_behind]

/-! ## The calls of a dump -/

/-- The calls of a dump that can be read are those of the nodes below the root that construct
something, each of them once, in the order in which they begin. A call has the type that its node
prints, the location of the start of its range, and as context the declarations among the nodes on
the way to it. -/
theorem constructions_at_addresses (main : String) (root : Node) :
    ((∃ s, ofNode main root = .ok s) ↔ root.IsReadable) ∧
    ∀ s, ofNode main root = .ok s →
      ∃ ps, root.Enumerates false (fun v =>
          v.attrs.kind = "CXXConstructExpr" ∨ v.attrs.kind = "CXXTemporaryObjectExpr") ps ∧
        List.Forall₂ (fun p c => ∃ v, root.visit? p = some v ∧ c.type = v.attrs.type ∧
            c.location =
              resolvedSpot? (root.pointsBefore p ++ pointsOf v.attrs.location) v.attrs.start ∧
            c.context = v.above.filterMap Attributes.enclosing?)
          ps s.constructions := by
  refine ⟨exists_ofNode_iff main root, fun s hs => ?_⟩
  have hcall : ∀ v : Visit, v.attrs.hasRole .construction ↔
      v.attrs.kind = "CXXConstructExpr" ∨ v.attrs.kind = "CXXTemporaryObjectExpr" := by
    intro v
    simp [Attributes.hasRole, Role.kinds]
  simp only [← hcall]
  rw [(shows_of_ofNode hs).constructions_eq, root.visits_eq]
  refine root.exists_enumerates false fun p v hv _ => ⟨v, hv, rfl, ?_, rfl⟩
  exact congrArg Place.start (Node.passNode_of_visit? hv)

def callsDump : Node :=
  let spot (p : Point) : Option Spot := some (.mk p none none)
  .mk { kind := rootKind } [
    .mk { kind := "NamespaceDecl", name := "lib" } [
      .mk { kind := "ClassTemplateDecl", name := "Box",
            location := spot ⟨some 0, "box.h", 3, 1, "main.cc"⟩ } [
        .mk { kind := "CXXRecordDecl", name := "Box", tag := "struct", isComplete := true } [
          .null,
          .mk { kind := "CXXRecordDecl", name := "Box", tag := "struct", isImplicit := true } [],
          .mk { kind := "CXXMethodDecl", name := "make" } [
            .mk { kind := "CXXTemporaryObjectExpr", start := spot ⟨none, "", 5, 7, "main.cc"⟩,
                  type := some ⟨"Box", "lib::Box<T>"⟩ } [
              .mk { kind := "CXXConstructExpr",
                    start := spot ⟨none, "", 0, 11, "main.cc"⟩ } []]]]]],
    .mk { kind := "FunctionDecl", name := "run" } [
      .mk { kind := "CXXConstructExpr", type := some ⟨"lib::Box<int>", ""⟩,
            start := some (.mk {} (spot ⟨some 0, "box.h", 2, 16, "main.cc"⟩)
              (spot ⟨some 0, "main.cc", 8, 3, ""⟩)) } []]]

theorem constructions_at_addresses_nested :
    ∃ s, ofNode "main.cc" callsDump = .ok s ∧ ∃ ps : List (List Nat),
      ps.Nodup ∧ ps.length = s.constructions.length ∧ [0, 0, 0, 2, 0] ∈ ps ∧
        [0, 0, 0, 2, 0, 0] ∈ ps ∧ [1, 0] ∈ ps ∧ [0, 0, 0, 1] ∉ ps := by
  have hs : ∃ s, ofNode "main.cc" callsDump = .ok s := ⟨_, rfl⟩
  obtain ⟨s, hs⟩ := hs
  obtain ⟨ps, henum, hcalls⟩ := (constructions_at_addresses _ _).2 s hs
  have hrecord : [0, 0, 0, 1] ∉ ps := by
    rw [henum.mem_iff]
    rintro ⟨v, hv, hkind⟩
    obtain rfl := Option.some.inj hv
    revert hkind
    decide
  have htemporary : [0, 0, 0, 2, 0] ∈ ps := (henum.mem_iff _).mpr ⟨_, rfl, .inr rfl⟩
  have hargument : [0, 0, 0, 2, 0, 0] ∈ ps := (henum.mem_iff _).mpr ⟨_, rfl, .inl rfl⟩
  have hmacro : [1, 0] ∈ ps := (henum.mem_iff _).mpr ⟨_, rfl, .inl rfl⟩
  exact ⟨s, hs, ps, henum.nodup, hcalls.length_eq, htemporary, hargument, hmacro, hrecord⟩

example : (callsDump.visit? [0, 0, 0, 2, 0, 0]).map (fun v =>
      (resolvedSpot? (callsDump.pointsBefore [0, 0, 0, 2, 0, 0]) v.attrs.start,
        v.above.filterMap Attributes.enclosing?)) =
    some (some ⟨"box.h", 5, 11, "main.cc"⟩,
      [.named "NamespaceDecl" "lib", .record "struct" "Box", .named "CXXMethodDecl" "make"]) := by
  decide +kernel

end TemplateCensus.Dump
