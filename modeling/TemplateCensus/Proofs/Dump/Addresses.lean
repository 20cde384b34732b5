import Mathlib.Data.List.Forall2
import TemplateCensus.Proofs.Dump.Tables

/-! Addresses of nodes in a dump: the numbers of the children on the way down to them. An address
tells a node from all others, also from equal ones, and the way to it passes the nodes around the
node. What the survey collects from node to node can so be laid at addresses, in their order. -/

namespace TemplateCensus.Dump

/-! ## Nodes at addresses -/

mutual

def visitIn? (above : List Attributes) (c : Cursor) : Node → List Nat → Option Visit
  | .null, _ => none
  | .mk a children, [] => some ⟨above, c, a, children⟩
  | .mk a children, i :: p => visitAmong? (above ++ [a]) (c.passNode a).2 children (i :: p)

def visitAmong? (above : List Attributes) (c : Cursor) : List Node → List Nat → Option Visit
  | [], _ => none
  | _ :: _, [] => none
  | n :: _, 0 :: p => visitIn? above c n p
  | n :: ns, (i + 1) :: p => visitAmong? above (c.passAll n.inOrder) ns (i :: p)

end

def Node.children : Node → List Node
  | .null => []
  | .mk _ children => children

/-- The node at an address below the root. A missing node has no address, nor has what would be
below it. -/
def Node.visit? (root : Node) (p : List Nat) : Option Visit := visitAmong? [] {} root.children p

/-- The order in which nodes begin or, if `late`, in which they end. Where the ways to them part,
the one on the left comes first; a node begins before the nodes in it and ends behind them. -/
def Precedes (late : Bool) : List Nat → List Nat → Prop
  | [], [] => False
  | [], _ :: _ => late = false
  | _ :: _, [] => late = true
  | i :: p, j :: q => i < j ∨ i = j ∧ Precedes late p q

theorem not_precedes_self (late : Bool) (p : List Nat) : ¬Precedes late p p := by
  induction p with
  | nil => exact id
  | cons i p ih => simp [Precedes, ih]

mutual

def Node.addresses (late : Bool) : Node → List (List Nat)
  | .null => []
  | .mk _ children =>
    (if late then [] else [[]]) ++ addressesAll late children ++ (if late then [[]] else [])

def addressesAll (late : Bool) : List Node → List (List Nat)
  | [] => []
  | n :: ns =>
    (n.addresses late).map (0 :: ·) ++ (addressesAll late ns).map (List.modifyHead (· + 1))

end

theorem exists_cons_of_mem_addressesAll {late : Bool} {ns : List Node} {p : List Nat}
    (h : p ∈ addressesAll late ns) : ∃ i q, p = i :: q := by
  induction ns generalizing p with
  | nil => cases h
  | cons n ns ih =>
    rw [addressesAll, List.mem_append, List.mem_map, List.mem_map] at h
    rcases h with ⟨q, -, rfl⟩ | ⟨q, hq, rfl⟩
    · exact ⟨0, q, rfl⟩
    · obtain ⟨i, r, rfl⟩ := ih hq
      exact ⟨i + 1, r, rfl⟩

section
variable {above : List Attributes} {c : Cursor}

theorem visitAmong?_nil (ns : List Node) : visitAmong? above c ns [] = none := by
  cases ns <;> rfl

theorem visitAmong?_modifyHead (n : Node) (ns : List Node) (p : List Nat) :
    visitAmong? above c (n :: ns) (p.modifyHead (· + 1)) =
      visitAmong? above (c.passAll n.inOrder) ns p := by
  cases p with
  | nil => rw [visitAmong?_nil, List.modifyHead_nil, visitAmong?_nil]
  | cons i p => rfl

end

section
variable {v : Visit}

mutual

theorem visitIn?_concat {above : List Attributes} {c : Cursor} (i : Nat) :
    (n : Node) → (p : List Nat) → visitIn? above c n p = some v →
      visitIn? above c n (p ++ [i]) = visitAmong? (v.above ++ [v.attrs]) v.inside v.children [i]
  | .null, _, h => nomatch h
  | .mk _ _, [], h => by
    obtain rfl := Option.some.inj h
    rfl
  | .mk _ children, j :: p, h => visitAmong?_concat i children (j :: p) h

theorem visitAmong?_concat {above : List Attributes} {c : Cursor} (i : Nat) :
    (ns : List Node) → (p : List Nat) → visitAmong? above c ns p = some v →
      visitAmong? above c ns (p ++ [i]) =
        visitAmong? (v.above ++ [v.attrs]) v.inside v.children [i]
  | [], _, h => nomatch h
  | _ :: _, [], h => nomatch h
  | n :: _, 0 :: p, h => visitIn?_concat i n p h
  | _ :: ns, (j + 1) :: p, h => visitAmong?_concat i ns (j :: p) h

end

theorem Node.visit?_concat {root : Node} {p : List Nat} (h : root.visit? p = some v) (i : Nat) :
    root.visit? (p ++ [i]) = visitAmong? (v.above ++ [v.attrs]) v.inside v.children [i] :=
  visitAmong?_concat i root.children p h

end

/-! ## Nodes before an address -/

mutual

def beforeIn : Node → List Nat → List Attributes
  | .null, _ => []
  | .mk _ _, [] => []
  | .mk a children, i :: p => a :: beforeAmong children (i :: p)

def beforeAmong : List Node → List Nat → List Attributes
  | [], _ => []
  | _ :: _, [] => []
  | n :: _, 0 :: p => beforeIn n p
  | n :: ns, (i + 1) :: p => n.inOrder ++ beforeAmong ns (i :: p)

end

def Node.before (root : Node) (p : List Nat) : List Attributes := beforeAmong root.children p

section
variable {v : Visit}

mutual

theorem cursor_of_visitIn? {above : List Attributes} {c : Cursor} :
    (n : Node) → (p : List Nat) → visitIn? above c n p = some v →
      v.cursor = c.passAll (beforeIn n p)
  | .null, _, h => nomatch h
  | .mk _ _, [], h => by
    obtain rfl := Option.some.inj h
    rfl
  | .mk _ children, i :: p, h => cursor_of_visitAmong? children (i :: p) h

theorem cursor_of_visitAmong? {above : List Attributes} {c : Cursor} :
    (ns : List Node) → (p : List Nat) → visitAmong? above c ns p = some v →
      v.cursor = c.passAll (beforeAmong ns p)
  | [], _, h => nomatch h
  | _ :: _, [], h => nomatch h
  | n :: _, 0 :: p, h => cursor_of_visitIn? n p h
  | n :: ns, (i + 1) :: p, h => by
    rw [beforeAmong, Cursor.passAll_append]
    exact cursor_of_visitAmong? ns (i :: p) h

end

theorem Node.cursor_of_visit? {root : Node} {p : List Nat} (h : root.visit? p = some v) :
    v.cursor = Cursor.passAll {} (root.before p) :=
  cursor_of_visitAmong? root.children p h

end

/-! ## The order of addresses -/

mutual

theorem pairwise_addresses (late : Bool) : (n : Node) → (n.addresses late).Pairwise (Precedes late)
  | .null => .nil
  | .mk a children => by
    have ih := pairwise_addressesAll late children
    rw [Node.addresses]
    cases late with
    | false =>
      refine List.pairwise_cons.mpr ⟨fun p hp => ?_, by simpa using ih⟩
      obtain ⟨i, q, rfl⟩ := exists_cons_of_mem_addressesAll (by simpa using hp)
      rfl
    | true =>
      refine List.pairwise_append.mpr ⟨by simpa using ih, List.pairwise_singleton _ _, ?_⟩
      intro p hp q hq
      obtain ⟨i, r, rfl⟩ := exists_cons_of_mem_addressesAll (by simpa using hp)
      rw [List.mem_singleton.mp hq]
      rfl

theorem pairwise_addressesAll (late : Bool) :
    (ns : List Node) → (addressesAll late ns).Pairwise (Precedes late)
  | [] => .nil
  | n :: ns => by
    have hfirst := pairwise_addresses late n
    have hothers := pairwise_addressesAll late ns
    rw [addressesAll]
    refine List.pairwise_append.mpr ⟨?_, ?_, ?_⟩
    · exact List.pairwise_map.mpr (hfirst.imp fun h => .inr ⟨rfl, h⟩)
    · refine List.pairwise_map.mpr (hothers.imp_of_mem fun hp hq h => ?_)
      obtain ⟨i, p, rfl⟩ := exists_cons_of_mem_addressesAll hp
      obtain ⟨j, q, rfl⟩ := exists_cons_of_mem_addressesAll hq
      exact h.imp Nat.succ_lt_succ fun ⟨hij, h⟩ => ⟨congrArg Nat.succ hij, h⟩
    · intro p hp q hq
      obtain ⟨p, -, rfl⟩ := List.mem_map.mp hp
      obtain ⟨r, hr, rfl⟩ := List.mem_map.mp hq
      obtain ⟨j, r, rfl⟩ := exists_cons_of_mem_addressesAll hr
      exact .inl (Nat.succ_pos j)

end

/-! ## Nodes in the order of their addresses -/

section
variable (late : Bool)

def visitsBy (above : List Attributes) (c : Cursor) (ns : List Node) : List Visit :=
  tourAll (fun v => if late then [] else [v]) (fun v => if late then [v] else []) above c ns

mutual

theorem map_visitIn?_addresses (above : List Attributes) (c : Cursor) :
    (n : Node) → (n.addresses late).map (visitIn? above c n) =
      (tour (fun v => if late then [] else [v]) (fun v => if late then [v] else []) above c n).map
        some
  | .null => rfl
  | .mk a children => by
    have ih := map_visitAmong?_addressesAll (above ++ [a]) (c.passNode a).2 children
    have hbelow : (addressesAll late children).map (visitIn? above c (.mk a children)) =
        (addressesAll late children).map
          (visitAmong? (above ++ [a]) (c.passNode a).2 children) := by
      refine List.map_congr_left fun p hp => ?_
      obtain ⟨i, q, rfl⟩ := exists_cons_of_mem_addressesAll hp
      rfl
    rw [Node.addresses, tour, List.map_append, List.map_append, List.map_append, List.map_append,
      hbelow, ih, visitsBy]
    cases late <;> rfl

theorem map_visitAmong?_addressesAll (above : List Attributes) (c : Cursor) :
    (ns : List Node) → (addressesAll late ns).map (visitAmong? above c ns) =
      (visitsBy late above c ns).map some
  | [] => rfl
  | n :: ns => by
    have hfirst := map_visitIn?_addresses above c n
    have hothers := map_visitAmong?_addressesAll above (c.passAll n.inOrder) ns
    have hskip : visitAmong? above c (n :: ns) ∘ List.modifyHead (· + 1) =
        visitAmong? above (c.passAll n.inOrder) ns := by
      funext p
      exact visitAmong?_modifyHead n ns p
    rw [addressesAll, List.map_append, List.map_map, List.map_map, hskip, hothers, visitsBy,
      visitsBy, tourAll, List.map_append, ← hfirst]
    rfl

end

mutual

theorem mem_addresses_of_visitIn? {above : List Attributes} {c : Cursor} :
    (n : Node) → (p : List Nat) → (visitIn? above c n p).isSome → p ∈ n.addresses late
  | .null, _, h => nomatch h
  | .mk a children, [], _ => by
    rw [Node.addresses]
    cases late <;> simp
  | .mk a children, i :: p, h => by
    have ih := mem_addressesAll_of_visitAmong? children (i :: p) h
    rw [Node.addresses]
    exact List.mem_append_left _ (List.mem_append_right _ ih)

theorem mem_addressesAll_of_visitAmong? {above : List Attributes} {c : Cursor} :
    (ns : List Node) → (p : List Nat) → (visitAmong? above c ns p).isSome → p ∈ addressesAll late ns
  | [], _, h => nomatch h
  | _ :: _, [], h => nomatch h
  | n :: ns, 0 :: p, h => by
    rw [addressesAll]
    exact List.mem_append_left _ (List.mem_map_of_mem (mem_addresses_of_visitIn? n p h))
  | n :: ns, (i + 1) :: p, h => by
    have ih := mem_addressesAll_of_visitAmong? ns (i :: p) h
    rw [addressesAll]
    exact List.mem_append_right _ (List.mem_map.mpr ⟨i :: p, ih, rfl⟩)

end

end

/-- The addresses of the nodes with a property, each of them once, in the order in which the nodes
begin or, if `late`, end. -/
structure Node.Enumerates (root : Node) (late : Bool) (q : Visit → Prop) (ps : List (List Nat)) :
    Prop where
  nodup : ps.Nodup
  ordered : ps.Pairwise (Precedes late)
  mem_iff : ∀ p, p ∈ ps ↔ ∃ v, root.visit? p = some v ∧ q v

namespace Node

theorem visits_eq (root : Node) : root.visits = visitsBy false [] {} root.children := by
  cases root <;> rfl

theorem endings_eq (root : Node) : root.endings = visitsBy true [] {} root.children := by
  cases root <;> rfl

theorem mem_visits_iff {root : Node} {v : Visit} :
    v ∈ root.visits ↔ ∃ p, root.visit? p = some v := by
  have hall : (addressesAll false root.children).map root.visit? = root.visits.map some := by
    rw [visits_eq]
    exact map_visitAmong?_addressesAll false [] {} root.children
  have hsome : v ∈ root.visits ↔ some v ∈ (addressesAll false root.children).map root.visit? := by
    rw [hall]
    simp
  rw [hsome, List.mem_map]
  constructor
  · rintro ⟨p, -, hp⟩
    exact ⟨p, hp⟩
  · rintro ⟨p, hp⟩
    have hmem : (root.visit? p).isSome := by rw [hp]; rfl
    exact ⟨p, mem_addressesAll_of_visitAmong? false _ p hmem, hp⟩

theorem exists_enumerates (root : Node) (late : Bool) {β : Type} {q : Visit → Bool}
    {f : Visit → β} {R : List Nat → β → Prop}
    (hR : ∀ p v, root.visit? p = some v → q v → R p (f v)) :
    ∃ ps, root.Enumerates late (fun v => q v) ps ∧
      List.Forall₂ R ps (((visitsBy late [] {} root.children).filter q).map f) := by
  let ps := (addressesAll late root.children).filter fun p => (root.visit? p).any q
  have hordered : ps.Pairwise (Precedes late) := (pairwise_addressesAll late _).filter _
  have hmem : ∀ p, p ∈ ps ↔ ∃ v, root.visit? p = some v ∧ q v := by
    intro p
    rw [List.mem_filter, Option.any_eq_true]
    constructor
    · exact fun h => h.2
    · rintro ⟨v, hv, hq⟩
      have hsome : (root.visit? p).isSome := by rw [hv]; rfl
      exact ⟨mem_addressesAll_of_visitAmong? late _ p hsome, v, hv, hq⟩
  have hvisits : ps.map root.visit? = ((visitsBy late [] {} root.children).filter q).map some := by
    have hall := map_visitAmong?_addressesAll late [] {} root.children
    have hfilter := congrArg (List.filter (Option.any q)) hall
    rwa [List.filter_map, List.filter_map] at hfilter
  rw [← List.forall₂_eq_eq_eq, List.forall₂_map_left_iff, List.forall₂_map_right_iff] at hvisits
  refine ⟨ps, ⟨hordered.imp ?_, hordered, hmem⟩, ?_⟩
  · rintro p _ hp rfl
    exact not_precedes_self late p hp
  · obtain ⟨hlen, hzip⟩ := List.forall₂_iff_zip.mp hvisits
    refine List.forall₂_map_right_iff.mpr (List.forall₂_iff_zip.mpr ⟨hlen, fun {p v} hpv => ?_⟩)
    have hv := (List.of_mem_zip hpv).2
    exact hR p v (hzip hpv) (List.mem_filter.mp hv).2

end Node

/-! ## Dumps that can be read -/

def Visit.hasGap (v : Visit) : Bool :=
  v.attrs.hasRole .specialization && (argumentsOf? v.children).isNone

theorem Visit.hasGap_finding (v : Visit) : v.finding.hasGap = (v.hasGap || v.inner.hasGap) := by
  unfold finding report hasGap
  cases h : Role.ofKind v.attrs.kind <;>
    simp [Attributes.hasRole_eq, h, Findings.apart, Findings.enclosed]
  case record => cases v.attrs.isImplicit <;> rfl
  case specialization => cases argumentsOf? v.children <;> rfl

mutual

theorem hasGap_survey (above : List Attributes) (c : Cursor) :
    (n : Node) → (survey (around above) c n).1.hasGap =
      (tour (fun v => [v]) (fun _ => []) above c n).any Visit.hasGap
  | .null => rfl
  | .mk a children => by
    have ih := hasGap_surveyAll (above ++ [a]) (c.passNode a).2 children
    have hnode : (survey (around above) c (.mk a children)).1.hasGap =
        (Visit.hasGap ⟨above, c, a, children⟩ ||
          (surveyAll (around (above ++ [a])) (c.passNode a).2 children).1.hasGap) := by
      rw [survey, ← around_concat]
      exact Visit.hasGap_finding ⟨above, c, a, children⟩
    rw [hnode, ih, tour, List.append_nil]
    rfl

theorem hasGap_surveyAll (above : List Attributes) (c : Cursor) :
    (ns : List Node) → (surveyAll (around above) c ns).1.hasGap =
      (visits above c ns).any Visit.hasGap
  | [] => rfl
  | n :: ns => by
    have hfirst := hasGap_survey above c n
    have hothers := hasGap_surveyAll above (c.passAll n.inOrder) ns
    have hadd : (surveyAll (around above) c (n :: ns)).1.hasGap =
        ((survey (around above) c n).1.hasGap ||
          (surveyAll (around above) (survey (around above) c n).2 ns).1.hasGap) := rfl
    rw [hadd, survey_cursor, hfirst, hothers, visits, visits, tourAll, List.any_append]

end

theorem Node.hasGap_found (root : Node) : root.found.hasGap = root.visits.any Visit.hasGap := by
  cases root with
  | null => rfl
  | mk a children => exact hasGap_surveyAll [] {} children

def Node.IsReadable (root : Node) : Prop :=
  root.attrs?.any (·.kind = "TranslationUnitDecl") ∧
    ∀ p v, root.visit? p = some v → v.attrs.kind = "ClassTemplateSpecializationDecl" →
      (argumentsOf? v.children).isSome

theorem exists_ofNode_iff (main : String) (root : Node) :
    (∃ s, ofNode main root = .ok s) ↔ root.IsReadable := by
  have hgap : root.found.hasGap = false ↔
      ∀ p v, root.visit? p = some v → v.attrs.kind = "ClassTemplateSpecializationDecl" →
        (argumentsOf? v.children).isSome := by
    have hone : ∀ v : Visit, ¬v.hasGap ↔
        (v.attrs.kind = "ClassTemplateSpecializationDecl" → (argumentsOf? v.children).isSome) := by
      intro v
      cases h : argumentsOf? v.children <;>
        simp [Visit.hasGap, Attributes.hasRole, Role.kinds, h]
    simp only [Node.hasGap_found, List.any_eq_false, hone, Node.mem_visits_iff]
    constructor
    · exact fun h p v hv => h v ⟨p, hv⟩
    · rintro h v ⟨p, hv⟩
      exact h p v hv
  cases root with
  | null => simp [ofNode, Node.IsReadable, Node.attrs?]
  | mk a children =>
    constructor
    · rintro ⟨s, hs⟩
      have hkind := kind_of_ofNode hs
      exact ⟨decide_eq_true hkind, hgap.mp (ofNode_eq_ok hs).1⟩
    · rintro ⟨hkind, h⟩
      exact exists_ofNode main (of_decide_eq_true hkind) (hgap.mpr h)

theorem ofText_of_readFirst {text : String} {v : Json} {rest : List Char}
    (h : Json.readFirst text = .value v rest) (main : String) :
    ofText main text = ofJson main v := by
  rw [ofText, h]

end TemplateCensus.Dump
