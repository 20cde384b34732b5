import TemplateCensus.Proofs.Dump.Discovery
import TemplateCensus.Proofs.Dump.Tables
import TemplateCensus.Proofs.Spelling.Arguments

/-! The arguments of a specialization come in two spellings: the dump lists them one by one, and a
printed type has them all in one text. Both ways lead to the same normal texts, so a type finds the
specialization that lists its arguments. -/

namespace TemplateCensus.Dump

open Spelling

def writtenType (t : TypeText) : String := if t.desugared = "" then t.spelling else t.desugared

/-- The arguments among the nodes are types, with the given texts in order, and no node is
missing. -/
structure HasTypes (children : List Node) (args : List String) : Prop where
  no_gap : ∀ n ∈ children, n.attrs?.isSome
  types : ((children.filterMap Node.attrs?).filter (·.kind = argumentKind)).map
    (·.type.map writtenType) = args.map some

theorem argumentsOf?_of_hasTypes {children : List Node} {args : List String}
    (h : HasTypes children args) : argumentsOf? children = some (args.map normal) := by
  induction children generalizing args with
  | nil =>
    have hnil : args = [] := by simpa using h.types.symm
    rw [hnil]
    rfl
  | cons n ns ih =>
    have hgap := fun m hm => h.no_gap m (List.mem_cons_of_mem n hm)
    cases n with
    | null => exact absurd (h.no_gap .null List.mem_cons_self) (by decide)
    | mk a children =>
      have htypes := h.types
      rw [List.filterMap_cons_some (by rfl)] at htypes
      by_cases hkind : a.kind = argumentKind
      · rw [List.filter_cons_of_pos (by simpa using hkind), List.map_cons] at htypes
        -- the first argument is this node's, the others follow
        obtain ⟨arg, args, rfl⟩ : ∃ arg rest, args = arg :: rest := by
          apply List.exists_cons_of_ne_nil
          rintro rfl
          cases htypes
        obtain ⟨hfirst, hrest⟩ := List.cons_eq_cons.mp htypes
        obtain ⟨t, ht, rfl⟩ := Option.map_eq_some_iff.mp hfirst
        have hone : argumentTexts? (.mk a children) = some [normal (writtenType t)] := by
          simp only [argumentTexts?, hkind, ht, if_true]
          rfl
        rw [argumentsOf?, hone, ih ⟨hgap, hrest⟩]
        rfl
      · rw [List.filter_cons_of_neg (by simpa using hkind)] at htypes
        have hone : argumentTexts? (.mk a children) = some [] := by
          rw [argumentTexts?, if_neg hkind]
        rw [argumentsOf?, hone, ih ⟨hgap, htypes⟩]
        rfl

/-- The node is among those to choose from under a name: it is known by the name; or it has the
name, and neither a class template nor a specialization is known by it. -/
def Node.Lists (root : Node) (name : String) (v : Visit) : Prop :=
  v.answersTo name ∨ v.attrs.name = name ∧
    ∀ w ∈ root.visits, w.attrs.hasRole .specialization ∨ w.attrs.hasRole .classTemplate →
      ¬w.answersTo name

theorem Node.Lists.mem_candidates {root : Node} {name : String} {v : Visit}
    (h : root.Lists name v) (hv : v ∈ root.visits) (hrole : v.attrs.hasRole .specialization)
    {x : Specialization} (hx : v.specialization? = some x) :
    x ∈ root.found.tables.candidates name name := by
  have hmem : v.named x ∈ root.found.tables.specializations :=
    mem_specializations_found.mpr ⟨v, hv, hrole, x, hx, rfl⟩
  refine Tables.mem_candidates.mpr ⟨v.named x, hmem, ?_, rfl⟩
  rcases h with h | ⟨hname, hunknown⟩
  · exact Tables.admits_of_answersTo hmem h
  · refine Tables.admits_of_unknown ?_ ?_ hname
    · intro n hn
      obtain ⟨w, hw, hwrole, y, -, rfl⟩ := mem_specializations_found.mp hn
      exact hunknown w hw (.inl hwrole)
    · intro n hn
      have hn : n ∈ root.found.templates := hn
      rw [templates_found] at hn
      obtain ⟨w, hw, rfl⟩ := List.mem_map.mp hn
      obtain ⟨hw, hwrole⟩ := List.mem_filter.mp hw
      exact hunknown w (Node.mem_endings.mp hw) (.inr hwrole)

/-- The bare spelling of a type with arguments comes apart into the name and the normal arguments,
which are those that the dump records for a specialization with these types. So the type finds a
specialization with as many arguments, if one with these types is there to choose from. -/
theorem printed_arguments_recorded {name : String} (hname : isIdentifier name)
    {args : List String} (hne : args ≠ []) (hargs : ∀ a ∈ args, IsArgument a.toList) :
    (plainName (bare (applied name (", ".intercalate args))) = name ∧
      Spelling.template? (lastPart (bare (applied name (", ".intercalate args)))) =
        some (name, args.map normal)) ∧
      (∀ children, HasTypes children args → argumentsOf? children = some (args.map normal)) ∧
      ∀ main root s, ofNode main root = .ok s →
        ∀ v ∈ root.visits, v.attrs.hasRole .specialization → HasTypes v.children args →
          root.Lists name v →
            ∃ x, s.tables.specialization? name name (args.map normal) = some x ∧
              matchArguments x.args (args.map normal) ∧ x.args.length = args.length := by
  have hscope := isScopeName_of_isIdentifier hname
  have hnormal : ∀ a ∈ args.map normal, IsArgument a.toList := by
    intro a ha
    obtain ⟨b, hb, rfl⟩ := List.mem_map.mp ha
    rw [normal, String.toList_ofList]
    exact (hargs b hb).normal
  have hbare := bare_applied_intercalate hname hne hargs
  have hcut := template?_applied_intercalate hscope.toIsTemplateName (by simpa using hne) hnormal
  have hbracketed : isBracketed [] (", ".intercalate (args.map normal)).toList := by
    have htext : (", ".intercalate (args.map normal)).toList =
        [',', ' '].intercalate ((args.map normal).map String.toList) := String.toList_intercalate
    rw [htext]
    exact isBracketed_intercalate (by simpa using hnormal)
  have hshows : List.Forall₂ Shows [name] [applied name (", ".intercalate (args.map normal))] :=
    .cons (.inr ⟨_, hbracketed, rfl⟩) .nil
  obtain ⟨hparts, hplain⟩ := scopeParts_of_shows hshows (by simp) (by simpa using hscope)
  have hone : ∀ x : String, qualify [x] = x := fun x => String.intercalate_singleton
  rw [hone] at hparts hplain
  rw [hone] at hplain
  refine ⟨⟨by rw [hbare, hplain], ?_⟩, fun children => argumentsOf?_of_hasTypes, ?_⟩
  · rw [hbare, lastPart, hparts]
    exact hcut
  · intro main root s hs v hv hrole htypes hlists
    have hx : v.specialization? = some ⟨args.map normal, v.location, v.inner.injected,
        (around v.above).inTemplate⟩ := by
      rw [Visit.specialization?, argumentsOf?_of_hasTypes htypes]
      rfl
    have hmem := hlists.mem_candidates hv hrole hx
    obtain ⟨y, hy, hmatch, hlen⟩ := exists_select?_of_full hmem (matchArguments_self _) rfl
    rw [← (ofNode_eq_ok hs).2.2.1] at hy
    rw [List.length_map] at hlen
    exact ⟨y, hy, hmatch, hlen⟩

theorem printed_arguments_recorded_pair :
    let arg (t : String) : Node := .mk { kind := argumentKind, type := some ⟨t, ""⟩ } []
    let dump : Node := .mk { kind := rootKind } [
      .mk { kind := "ClassTemplateDecl", name := "Map" } [.mk { kind := "CXXRecordDecl" } []],
      .mk { kind := "ClassTemplateSpecializationDecl", name := "Map" } [
        arg "pair<int, struct A >", arg "char (&)[2]", .mk { kind := "CXXRecordDecl" } []]]
    bare "Map<pair<int, struct A >, char (&)[2]>" = "Map<pair<int, A>, char (&)[2]>" ∧
      Spelling.template? (lastPart (bare "Map<pair<int, struct A >, char (&)[2]>")) =
        some ("Map", ["pair<int, A>", "char (&)[2]"]) ∧
      ∃ s x, ofNode "main.cc" dump = .ok s ∧
        s.tables.specialization? "Map" "Map" ["pair<int, A>", "char (&)[2]"] = some x := by
  intro arg dump
  have hargs : ∀ a ∈ ["pair<int, struct A >", "char (&)[2]"], IsArgument a.toList := by
    decide +kernel
  have hnormal : ["pair<int, struct A >", "char (&)[2]"].map normal =
      ["pair<int, A>", "char (&)[2]"] := by decide +kernel
  have htext : applied "Map" (", ".intercalate ["pair<int, struct A >", "char (&)[2]"]) =
      "Map<pair<int, struct A >, char (&)[2]>" := by decide +kernel
  have hname : isIdentifier "Map" := by decide
  obtain ⟨⟨-, hcut⟩, -, hfind⟩ := printed_arguments_recorded hname (List.cons_ne_nil _ _) hargs
  rw [hnormal, htext] at hcut
  have hs : ∃ s, ofNode "main.cc" dump = .ok s := ⟨_, rfl⟩
  obtain ⟨s, hs⟩ := hs
  let v := dump.visits.get ⟨2, by decide +kernel⟩
  obtain ⟨x, hx, -⟩ := hfind "main.cc" dump s hs v (List.get_mem _ _) (by decide +kernel)
    ⟨by decide +kernel, by decide +kernel⟩ (.inl (by decide +kernel))
  rw [hnormal] at hx
  exact ⟨by decide +kernel, hcut, s, x, hs, hx⟩

end TemplateCensus.Dump
