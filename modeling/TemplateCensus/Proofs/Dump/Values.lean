import Mathlib.Tactic.SplitIfs
import TemplateCensus.Proofs.Dump.Addresses
import TemplateCensus.Proofs.Json.Value

/-! The values of nodes that are no template arguments. Nothing looks at them, but they are read all
the same: a value that is a text or `null` makes no difference to what is found, and any other value
makes the whole dump unreadable. The reader amends what it has read before, so the two readings are
compared slot by slot, up to the value at one address. -/

namespace TemplateCensus

def Json.isTextual : Json → Bool
  | .null | .string _ => true
  | _ => false

theorem Json.text?_eq_none {v : Json} (h : ¬v.isTextual) (old : String) : text? old v = none := by
  cases v <;> simp_all [isTextual, text?]

theorem Json.exists_text? {v : Json} (h : v.isTextual) (old : String) :
    ∃ s, text? old v = some s := by
  cases v <;> simp_all [isTextual, text?]

namespace Dump

open Json

/-! ## Erased values -/

/-- Addresses of nodes: the place of each node among its siblings, from the root on. -/
abbrev Mask := List Nat → Bool

def Mask.below (m : Mask) (i : Nat) : Mask := fun p => m (i :: p)

namespace Attributes

def unvalued (a : Attributes) : Attributes := { a with value := "" }

def erase (m : Mask) (a : Attributes) : Attributes := if m [] then a.unvalued else a

theorem unvalued_attribute? (a : Attributes) (k : String) (v : Json) :
    (attribute? a.unvalued k v).map unvalued = (attribute? a k v).map unvalued := by
  have hvalue : ∀ b : Attributes, ((text? b.value v).map ({ b with value := · })).map unvalued =
      (text? "" v).map fun _ => b.unvalued := by
    intro b
    cases v <;> rfl
  unfold attribute?
  simp only [apply_ite (Option.map unvalued), hvalue]
  simp only [Option.map_map]
  rfl

theorem erase_attribute? {m : Mask} {a b : Attributes} (h : a.erase m = b.erase m) (k : String)
    (v : Json) : (attribute? a k v).map (erase m) = (attribute? b k v).map (erase m) := by
  unfold erase at *
  cases hm : m [] with
  | false =>
    simp only [hm, Bool.false_eq_true, if_false] at h ⊢
    rw [h]
  | true =>
    simp only [hm, if_true] at h ⊢
    rw [← unvalued_attribute? a, ← unvalued_attribute? b, h]

end Attributes

namespace Draft

mutual

def erase (m : Mask) : Draft → Draft
  | null => null
  | mk a cs sp => mk (a.erase m) (eraseAll m 0 cs) (eraseAll m cs.length sp)

def eraseAll (m : Mask) (i : Nat) : List Draft → List Draft
  | [] => []
  | d :: ds => d.erase (m.below i) :: eraseAll m (i + 1) ds

end

section
variable {m : Mask} {d e : Draft}

theorem eraseAll_append (i : Nat) (ds es : List Draft) :
    eraseAll m i (ds ++ es) = eraseAll m i ds ++ eraseAll m (i + ds.length) es := by
  induction ds generalizing i with
  | nil => rfl
  | cons d ds ih =>
    rw [List.cons_append, eraseAll, eraseAll, ih, List.cons_append, List.length_cons,
      Nat.add_right_comm, Nat.add_assoc]

theorem erase_attrs (h : d.erase m = e.erase m) : d.attrs.erase m = e.attrs.erase m := by
  cases d <;> cases e <;> simp_all [erase, attrs]

theorem erase_started (h : d.erase m = e.erase m) : d.started.erase m = e.started.erase m := by
  cases d <;> cases e <;> simp_all [erase, started]

theorem eraseAll_slots (h : d.erase m = e.erase m) :
    eraseAll m 0 d.slots = eraseAll m 0 e.slots := by
  cases d with
  | null =>
    cases e with
    | null => rfl
    | mk _ _ _ => exact nomatch h
  | mk a cs sp =>
    cases e with
    | null => exact nomatch h
    | mk b ds tp =>
      obtain ⟨-, hcs, hsp⟩ := Draft.mk.inj h
      rw [slots, slots, eraseAll_append, eraseAll_append, hcs]
      simp only [Nat.zero_add]
      rw [hsp]

theorem erase_withAttrs (h : d.erase m = e.erase m) {a b : Attributes}
    (hab : a.erase m = b.erase m) : (d.withAttrs a).erase m = (e.withAttrs b).erase m := by
  cases d <;> cases e <;> simp_all [erase, withAttrs]

theorem erase_withChildren (h : d.erase m = e.erase m) {cs ds sp tp : List Draft}
    (hcs : eraseAll m 0 cs = eraseAll m 0 ds)
    (hsp : eraseAll m cs.length sp = eraseAll m ds.length tp) :
    (d.withChildren cs sp).erase m = (e.withChildren ds tp).erase m := by
  rw [withChildren, withChildren, erase, erase, erase_attrs h, hcs, hsp]

end

def items? (slots : List Draft) : Json → Option (List Draft × List Draft)
  | .null | .array [] => some ([], [])
  | .array vs => fillItems slots vs
  | _ => none

def amend? (d : Draft) (k : String) (v : Json) : Option Draft :=
  if sameName k "inner" then (items? d.slots v).map fun r => d.withChildren r.1 r.2
  else (attribute? d.attrs k v).map d.withAttrs

theorem fillMembers_cons (d : Draft) (k : String) (v : Json) (ms : List (String × Json)) :
    d.fillMembers ((k, v) :: ms) = (d.amend? k v).bind (·.fillMembers ms) := by
  conv => lhs; unfold fillMembers
  unfold amend?
  split
  · cases v with
    | array vs =>
      cases vs with
      | nil => rfl
      | cons v vs =>
        simp only [items?]
        cases fillItems d.slots (v :: vs) <;> rfl
    | _ => rfl
  · cases attribute? d.attrs k v <;> rfl

theorem fillMembers_append (d : Draft) (ms ns : List (String × Json)) :
    d.fillMembers (ms ++ ns) = (d.fillMembers ms).bind (·.fillMembers ns) := by
  induction ms generalizing d with
  | nil => rfl
  | cons m ms ih =>
    rw [List.cons_append, fillMembers_cons, fillMembers_cons, Option.bind_assoc]
    exact congrArg _ (funext ih)

theorem fillItems_cons (slots : List Draft) (v : Json) (vs : List Json) :
    fillItems slots (v :: vs) = ((slots.headD null).fill v).bind fun d =>
      (fillItems slots.tail vs).map fun r => (d :: r.1, r.2) := by
  rw [fillItems]
  cases (slots.headD null).fill v with
  | none => rfl
  | some d => cases fillItems slots.tail vs <;> rfl

def eraseItems (m : Mask) (i : Nat) (r : List Draft × List Draft) : List Draft × List Draft :=
  (eraseAll m i r.1, eraseAll m (i + r.1.length) r.2)

theorem map_bind_congr {α β γ δ : Type} {f : α → γ} {g : β → δ} {x y : Option α}
    {k l : α → Option β} (hxy : x.map f = y.map f)
    (hkl : ∀ a b, f a = f b → (k a).map g = (l b).map g) :
    (x.bind k).map g = (y.bind l).map g := by
  cases x with
  | none =>
    cases y with
    | none => rfl
    | some b => exact nomatch hxy
  | some a =>
    cases y with
    | none => exact nomatch hxy
    | some b => exact hkl a b (Option.some.inj hxy)

theorem map_map_congr {α β γ δ : Type} {f : α → γ} {g : β → δ} {x y : Option α} {k l : α → β}
    (hxy : x.map f = y.map f) (hkl : ∀ a b, f a = f b → g (k a) = g (l b)) :
    (x.map k).map g = (y.map l).map g := by
  rw [Option.map_eq_bind (f := k), Option.map_eq_bind (f := l)]
  exact map_bind_congr hxy fun a b hab => congrArg some (hkl a b hab)

theorem erase_amend? {m : Mask} {d e : Draft} (h : d.erase m = e.erase m) (k : String) {v : Json}
    (hitems : (items? d.slots v).map (eraseItems m 0) = (items? e.slots v).map (eraseItems m 0)) :
    (d.amend? k v).map (erase m) = (e.amend? k v).map (erase m) := by
  unfold amend?
  split
  · refine map_map_congr hitems fun r s hrs => ?_
    obtain ⟨hcs, hsp⟩ := Prod.mk.inj hrs
    simp only [Nat.zero_add] at hsp
    exact erase_withChildren h hcs hsp
  · have hattrs := Attributes.erase_attribute? (erase_attrs h) k v
    exact map_map_congr hattrs fun a b hab => erase_withAttrs h hab

mutual

/-- Readings into slots that differ in erased values differ in erased values. -/
theorem erase_fill {m : Mask} {d e : Draft} (h : d.erase m = e.erase m) : (v : Json) →
    (d.fill v).map (erase m) = (e.fill v).map (erase m)
  | .null => rfl
  | .object ms => erase_fillMembers (erase_started h) ms
  | .bool _ | .number _ | .string _ | .array _ => rfl

theorem erase_fillMembers {m : Mask} {d e : Draft} (h : d.erase m = e.erase m) :
    (ms : List (String × Json)) →
    (d.fillMembers ms).map (erase m) = (e.fillMembers ms).map (erase m)
  | [] => congrArg some h
  | (k, v) :: ms => by
    have hmember := erase_amend? h k (erase_items? (eraseAll_slots h) v)
    rw [fillMembers_cons, fillMembers_cons]
    exact map_bind_congr hmember fun d e hde => erase_fillMembers hde ms

theorem erase_items? {m : Mask} {ds es : List Draft} (h : eraseAll m 0 ds = eraseAll m 0 es) :
    (v : Json) → (items? ds v).map (eraseItems m 0) = (items? es v).map (eraseItems m 0)
  | .array vs => by
    have hitems := erase_fillItems h vs
    cases vs with
    | nil => rfl
    | cons v vs => exact hitems
  | .null | .bool _ | .number _ | .string _ | .object _ => rfl

theorem erase_fillItems {m : Mask} {i : Nat} {ds es : List Draft}
    (h : eraseAll m i ds = eraseAll m i es) : (vs : List Json) →
    (fillItems ds vs).map (eraseItems m i) = (fillItems es vs).map (eraseItems m i)
  | [] => by
    rw [fillItems, fillItems]
    exact congrArg (fun ts => some ([], ts)) h
  | v :: vs => by
    have hhead : (ds.headD null).erase (m.below i) = (es.headD null).erase (m.below i) := by
      cases ds <;> cases es <;> simp_all [eraseAll]
    have htail : eraseAll m (i + 1) ds.tail = eraseAll m (i + 1) es.tail := by
      cases ds <;> cases es <;> simp_all [eraseAll]
    rw [fillItems_cons, fillItems_cons]
    refine map_bind_congr (erase_fill hhead v) fun d e hde => ?_
    refine map_map_congr (erase_fillItems htail vs) fun r s hrs => ?_
    obtain ⟨hcs, hsp⟩ := Prod.mk.inj hrs
    simp only [eraseItems, eraseAll, hde, hcs, List.length_cons, ← Nat.add_assoc,
      Nat.add_right_comm i _ 1, hsp]

end

end Draft

/-! ## Setting a value -/

def isValueMember (m : String × Json) : Bool := sameName m.1 "value"

/-- The members of an object with the value set to `w`: there is one value, and all other members
are there as before. -/
structure SetsValue (w : Json) (ms ns : List (String × Json)) : Prop where
  value : ∃ k, ns.filter isValueMember = [(k, w)]
  others : ns.filter (!isValueMember ·) = ms.filter (!isValueMember ·)

inductive SetsValueAt (w : Json) : List Nat → Json → Json → Prop
  | here {ms ns : List (String × Json)} (h : SetsValue w ms ns) :
    SetsValueAt w [] (.object ms) (.object ns)
  | child {k : String} (hk : sameName k "inner") (before after : List (String × Json))
    (xs ys : List Json) {p : List Nat} {v v' : Json} (h : SetsValueAt w p v v') :
    SetsValueAt w (xs.length :: p) (.object (before ++ (k, .array (xs ++ v :: ys)) :: after))
      (.object (before ++ (k, .array (xs ++ v' :: ys)) :: after))

def Mask.only (p : List Nat) : Mask := fun q => q = p

theorem Mask.below_only (i : Nat) (p : List Nat) : (only (i :: p)).below i = only p := by
  funext q
  simp [below, only]

namespace Draft

theorem amend?_of_isValueMember {k : String} (h : sameName k "value") (d : Draft) (v : Json) :
    d.amend? k v =
      (text? d.attrs.value v).map fun s => d.withAttrs { d.attrs with value := s } := by
  have hname : ∀ n, sameName k n = sameName "value" n := by
    intro n
    have hk : k.toList.map foldChar = "value".toList.map foldChar := of_decide_eq_true h
    rw [sameName, sameName, hk]
  have hother : ∀ n ∈ ["inner", "id", "kind", "name", "loc", "range", "type"],
      sameName "value" n = false := by decide
  have hvalue : sameName "value" "value" := by decide
  simp only [List.forall_mem_cons] at hother
  simp only [amend?, attribute?, hname, hother, hvalue, if_true, Bool.false_eq_true, if_false,
    Option.map_map]
  rfl

theorem amend?_ne_null {d e : Draft} {k : String} {v : Json} (h : d.amend? k v = some e) :
    e ≠ null := by
  unfold amend? at h
  split at h
  · obtain ⟨r, -, rfl⟩ := Option.map_eq_some_iff.mp h
    exact nofun
  · obtain ⟨a, -, rfl⟩ := Option.map_eq_some_iff.mp h
    cases d <;> exact nofun

theorem erase_withAttrs_value {m : Mask} (hm : m []) {d : Draft} (hd : d ≠ null) (s : String) :
    (d.withAttrs { d.attrs with value := s }).erase m = d.erase m := by
  cases d with
  | null => exact absurd rfl hd
  | mk a cs sp => simp [withAttrs, attrs, erase, Attributes.erase, hm, Attributes.unvalued]

theorem erase_fillMembers_filter {m : Mask} (hm : m []) {d : Draft} (hd : d ≠ null)
    {ms : List (String × Json)} (h : ∀ x ∈ ms.filter isValueMember, x.2.isTextual) :
    (d.fillMembers ms).map (erase m) =
      (d.fillMembers (ms.filter (!isValueMember ·))).map (erase m) := by
  induction ms generalizing d with
  | nil => rfl
  | cons x ms ih =>
    obtain ⟨k, v⟩ := x
    by_cases hk : isValueMember (k, v)
    · rw [List.filter_cons_of_pos hk, List.forall_mem_cons] at h
      obtain ⟨s, hs⟩ := Json.exists_text? h.1 d.attrs.value
      have hskip : List.filter (!isValueMember ·) ((k, v) :: ms) =
          ms.filter (!isValueMember ·) := List.filter_cons_of_neg (by simp [hk])
      have hsame := erase_withAttrs_value hm hd s
      rw [hskip, fillMembers_cons, amend?_of_isValueMember hk, hs, ← ih hd h.2]
      exact erase_fillMembers hsame ms
    · have hkeep : List.filter (!isValueMember ·) ((k, v) :: ms) =
          (k, v) :: ms.filter (!isValueMember ·) := List.filter_cons_of_pos (by simp [hk])
      rw [List.filter_cons_of_neg hk] at h
      rw [hkeep, fillMembers_cons, fillMembers_cons]
      cases he : d.amend? k v with
      | none => rfl
      | some e => exact ih (amend?_ne_null he) h

theorem fillMembers_eq_none {ms : List (String × Json)} {x : String × Json} (hx : x ∈ ms)
    (hvalue : isValueMember x) (h : ¬x.2.isTextual) (d : Draft) : d.fillMembers ms = none := by
  obtain ⟨before, after, rfl⟩ := List.append_of_mem hx
  have hnone : ∀ e : Draft, e.fillMembers (x :: after) = none := by
    intro e
    rw [fillMembers_cons, amend?_of_isValueMember hvalue, Json.text?_eq_none h]
    rfl
  rw [fillMembers_append]
  cases d.fillMembers before with
  | none => rfl
  | some e => exact hnone e

theorem isTextual_of_fillMembers {ms : List (String × Json)} {d e : Draft}
    (h : d.fillMembers ms = some e) : ∀ x ∈ ms.filter isValueMember, x.2.isTextual := by
  intro x hx
  obtain ⟨hx, hvalue⟩ := List.mem_filter.mp hx
  refine Decidable.byContradiction fun htext => ?_
  rw [fillMembers_eq_none hx hvalue htext] at h
  exact nomatch h

theorem started_ne_null (d : Draft) : d.started ≠ null := by
  cases d <;> exact nofun

theorem fillItems_append (slots : List Draft) (xs ys : List Json) :
    fillItems slots (xs ++ ys) = (fillItems slots xs).bind fun r =>
      (fillItems r.2 ys).map fun s => (r.1 ++ s.1, s.2) := by
  induction xs generalizing slots with
  | nil =>
    rw [List.nil_append, fillItems, Option.bind_some]
    exact (Option.map_id' ..).symm
  | cons x xs ih =>
    rw [List.cons_append, fillItems_cons, fillItems_cons, Option.bind_assoc]
    apply congrArg
    funext d
    rw [ih, Option.map_bind, Option.bind_map]
    simp only [Function.comp_def, Option.map_map, List.cons_append]

theorem length_of_fillItems {slots : List Draft} {vs : List Json} {r : List Draft × List Draft}
    (h : fillItems slots vs = some r) : r.1.length = vs.length := by
  induction vs generalizing slots r with
  | nil =>
    obtain rfl := Option.some.inj h
    rfl
  | cons v vs ih =>
    rw [fillItems_cons] at h
    obtain ⟨d, -, h⟩ := Option.bind_eq_some_iff.mp h
    obtain ⟨s, hs, rfl⟩ := Option.map_eq_some_iff.mp h
    rw [List.length_cons, ih hs, List.length_cons]

theorem amend?_inner {k : String} (hk : sameName k "inner") (d : Draft) (xs ys : List Json)
    (v : Json) : d.amend? k (.array (xs ++ v :: ys)) =
      (fillItems d.slots xs).bind fun r => ((r.2.headD null).fill v).bind fun e =>
        (fillItems r.2.tail ys).map fun s => d.withChildren (r.1 ++ e :: s.1) s.2 := by
  have hitems : items? d.slots (.array (xs ++ v :: ys)) = fillItems d.slots (xs ++ v :: ys) := by
    cases xs <;> rfl
  rw [amend?, if_pos hk, hitems, fillItems_append, Option.map_bind]
  apply congrArg
  funext r
  rw [Function.comp_apply, fillItems_cons, Option.map_bind, Option.map_bind]
  simp only [Function.comp_def, Option.map_map]

theorem fill_eq_none {w : Json} {p : List Nat} {v v' : Json} (h : SetsValueAt w p v v')
    (hw : ¬w.isTextual) (d : Draft) : d.fill v' = none := by
  induction h generalizing d with
  | here h =>
    obtain ⟨k, hk⟩ := h.value
    have hmem : (k, w) ∈ List.filter isValueMember _ := hk ▸ List.mem_singleton_self (k, w)
    obtain ⟨hmem, hvalue⟩ := List.mem_filter.mp hmem
    exact fillMembers_eq_none hmem hvalue hw d.started
  | @child k hk before after xs ys p v v' _ ih =>
    have hnone : ∀ e : Draft, e.amend? k (.array (xs ++ v' :: ys)) = none := by
      intro e
      rw [amend?_inner hk]
      simp only [ih, Option.bind_none, Option.bind_fun_none]
    rw [fill, fillMembers_append]
    simp only [fillMembers_cons, hnone, Option.bind_none, Option.bind_fun_none]

theorem exists_of_map_eq {α β : Type} {f : α → β} {x y : Option α} (h : x.map f = y.map f) {a : α}
    (hy : y = some a) : ∃ b, x = some b ∧ f b = f a := by
  rw [hy, Option.map_some] at h
  exact Option.map_eq_some_iff.mp h

theorem exists_fill {w : Json} {p : List Nat} {v v' : Json} (h : SetsValueAt w p v v')
    (hw : w.isTextual) {d e : Draft} (he : d.fill v = some e) :
    ∃ e', d.fill v' = some e' ∧ e'.erase (.only p) = e.erase (.only p) := by
  induction h generalizing d e with
  | @here ms ns h =>
    have hroot : Mask.only [] [] := decide_eq_true rfl
    obtain ⟨k, hk⟩ := h.value
    have hns : ∀ x ∈ ns.filter isValueMember, x.2.isTextual := by
      rw [hk]
      exact List.forall_mem_singleton.mpr hw
    have hold := erase_fillMembers_filter hroot d.started_ne_null (isTextual_of_fillMembers he)
    have hnew := erase_fillMembers_filter hroot d.started_ne_null hns
    rw [h.others, ← hold] at hnew
    exact exists_of_map_eq hnew he
  | @child k hk before after xs ys p v v' _ ih =>
    rw [fill, fillMembers_append] at he
    obtain ⟨f, hf, he⟩ := Option.bind_eq_some_iff.mp he
    rw [fillMembers_cons, amend?_inner hk] at he
    obtain ⟨g, hg, hafter⟩ := Option.bind_eq_some_iff.mp he
    obtain ⟨r, hr, hg⟩ := Option.bind_eq_some_iff.mp hg
    obtain ⟨x, hx, hg⟩ := Option.bind_eq_some_iff.mp hg
    obtain ⟨s, hs, rfl⟩ := Option.map_eq_some_iff.mp hg
    obtain ⟨x', hx', hsame⟩ := ih hx
    -- the new child stands where the old one stood, and differs from it in its erased value
    have hchildren : eraseAll (.only (xs.length :: p)) 0 (r.1 ++ x' :: s.1) =
        eraseAll (.only (xs.length :: p)) 0 (r.1 ++ x :: s.1) := by
      rw [eraseAll_append, eraseAll_append, eraseAll, eraseAll, Nat.zero_add,
        length_of_fillItems hr, Mask.below_only, hsame]
    have hlength : (r.1 ++ x' :: s.1).length = (r.1 ++ x :: s.1).length := by simp
    have hdraft := erase_withChildren (d := f) rfl hchildren (congrArg (eraseAll _ · s.2) hlength)
    obtain ⟨e', he', hlast⟩ := exists_of_map_eq (erase_fillMembers hdraft after) hafter
    refine ⟨e', ?_, hlast⟩
    rw [fill, fillMembers_append, hf, Option.bind_some, fillMembers_cons, amend?_inner hk, hr,
      Option.bind_some, hx', Option.bind_some, hs]
    exact he'

end Draft

/-! ## The survey of erased nodes -/

mutual

def Node.erase (m : Mask) : Node → Node
  | .null => .null
  | .mk a children => .mk (a.erase m) (eraseNodes m 0 children)

def eraseNodes (m : Mask) (i : Nat) : List Node → List Node
  | [] => []
  | n :: ns => n.erase (m.below i) :: eraseNodes m (i + 1) ns

end

mutual

theorem Draft.node_erase (m : Mask) : (d : Draft) → (d.erase m).node = d.node.erase m
  | .null => rfl
  | .mk a cs _ => by
    rw [erase, node, node, Node.erase, nodes_eraseAll m 0 cs]

theorem Draft.nodes_eraseAll (m : Mask) (i : Nat) : (ds : List Draft) →
    nodes (eraseAll m i ds) = eraseNodes m i (nodes ds)
  | [] => rfl
  | d :: ds => by
    rw [eraseAll, nodes, nodes, eraseNodes, node_erase (m.below i) d, nodes_eraseAll m (i + 1) ds]

end

section
variable (m : Mask) (a : Attributes)

theorem Attributes.kind_erase : (a.erase m).kind = a.kind := by
  unfold erase
  split <;> rfl

theorem passNode_erase (c : Cursor) : c.passNode (a.erase m) = c.passNode a := by
  unfold Attributes.erase
  split <;> rfl

theorem below_erase (s : Surroundings) : s.below (a.erase m) = s.below a := by
  unfold Attributes.erase
  split <;> rfl

theorem report_erase (s : Surroundings) {ns ns' : List Node}
    (h : argumentsOf? ns' = argumentsOf? ns) (here : Place) (inner : Findings) :
    report s (a.erase m) ns' here inner = report s a ns here inner := by
  have hnodes : report s (a.erase m) ns' here inner = report s (a.erase m) ns here inner := by
    unfold report
    rw [h]
  rw [hnodes]
  unfold Attributes.erase
  cases m [] <;> rfl

end

/-- The mask has none of the nodes with a value that matters. -/
def Node.Spares (n : Node) (m : Mask) (above : List Attributes) (c : Cursor) : Prop :=
  ∀ q v, m q → visitIn? above c n q = some v → v.attrs.kind ≠ argumentKind

def SparesAll (m : Mask) (i : Nat) (above : List Attributes) (c : Cursor) (ns : List Node) : Prop :=
  ∀ j q v, m ((i + j) :: q) → visitAmong? above c ns (j :: q) = some v →
    v.attrs.kind ≠ argumentKind

section
variable {m : Mask} {i : Nat} {above : List Attributes} {c : Cursor}

theorem Node.Spares.children {a : Attributes} {ns : List Node}
    (h : (Node.mk a ns).Spares m above c) : SparesAll m 0 (above ++ [a]) (c.passNode a).2 ns := by
  intro j q v hm hv
  rw [Nat.zero_add] at hm
  exact h (j :: q) v hm hv

theorem SparesAll.head {n : Node} {ns : List Node} (h : SparesAll m i above c (n :: ns)) :
    n.Spares (m.below i) above c :=
  fun q v hm hv => h 0 q v hm hv

theorem SparesAll.tail {n : Node} {ns : List Node} (h : SparesAll m i above c (n :: ns)) :
    SparesAll m (i + 1) above (c.passAll n.inOrder) ns := by
  intro j q v hm hv
  rw [Nat.add_right_comm, Nat.add_assoc] at hm
  exact h (j + 1) q v hm hv

theorem Node.Spares.erase_attrs {a : Attributes} {ns : List Node}
    (h : (Node.mk a ns).Spares m above c) (hkind : a.kind = argumentKind) : a.erase m = a := by
  have hroot : ¬m [] := fun hm => h [] _ hm rfl hkind
  exact if_neg hroot

end

mutual

theorem argumentTexts?_erase {m : Mask} {above : List Attributes} {c : Cursor} : (n : Node) →
    n.Spares m above c → argumentTexts? (n.erase m) = argumentTexts? n
  | .null, _ => rfl
  | .mk a ns, h => by
    have ih := argumentsOf?_eraseNodes ns h.children
    have hempty : (eraseNodes m 0 ns).isEmpty = ns.isEmpty := by cases ns <;> rfl
    rw [Node.erase, argumentTexts?, argumentTexts?, ih, hempty, Attributes.kind_erase]
    by_cases hkind : a.kind = argumentKind
    · rw [h.erase_attrs hkind]
    · rw [if_neg hkind, if_neg hkind]

theorem argumentsOf?_eraseNodes {m : Mask} {i : Nat} {above : List Attributes} {c : Cursor} :
    (ns : List Node) → SparesAll m i above c ns → argumentsOf? (eraseNodes m i ns) = argumentsOf? ns
  | [], _ => rfl
  | n :: ns, h => by
    rw [eraseNodes, argumentsOf?, argumentsOf?, argumentTexts?_erase n h.head,
      argumentsOf?_eraseNodes ns h.tail]

end

mutual

theorem survey_erase {m : Mask} {above : List Attributes} {c : Cursor} (s : Surroundings) :
    (n : Node) → n.Spares m above c → ∀ d, survey s d (n.erase m) = survey s d n
  | .null, _, _ => rfl
  | .mk a ns, h, d => by
    have ih := surveyAll_eraseNodes (s.below a) ns h.children (d.passNode a).2
    have hargs := argumentsOf?_eraseNodes ns h.children
    simp only [Node.erase, survey, passNode_erase, below_erase, ih, report_erase m a s hargs]

theorem surveyAll_eraseNodes {m : Mask} {i : Nat} {above : List Attributes} {c : Cursor}
    (s : Surroundings) : (ns : List Node) → SparesAll m i above c ns →
      ∀ d, surveyAll s d (eraseNodes m i ns) = surveyAll s d ns
  | [], _, _ => rfl
  | n :: ns, h, d => by
    have hfirst := survey_erase s n h.head d
    have hothers := surveyAll_eraseNodes s ns h.tail
    simp only [eraseNodes, surveyAll, hfirst, hothers]

end

theorem ofNode_erase (main : String) {m : Mask} {root : Node}
    (h : SparesAll m 0 [] {} root.children) : ofNode main (root.erase m) = ofNode main root := by
  cases root with
  | null => rfl
  | mk a ns =>
    have hsurvey := surveyAll_eraseNodes {} ns h {}
    rw [Node.erase, ofNode, ofNode, Attributes.kind_erase, hsurvey]

mutual

theorem map_kind_visitIn?_erase {m : Mask} {above above' : List Attributes} {c c' : Cursor} :
    (n : Node) → (p : List Nat) → (visitIn? above c (n.erase m) p).map (·.attrs.kind) =
      (visitIn? above' c' n p).map (·.attrs.kind)
  | .null, _ => rfl
  | .mk a _, [] => congrArg some (a.kind_erase m)
  | .mk _ ns, i :: p => map_kind_visitAmong?_eraseNodes ns (i :: p)

theorem map_kind_visitAmong?_eraseNodes {m : Mask} {k : Nat} {above above' : List Attributes}
    {c c' : Cursor} : (ns : List Node) → (p : List Nat) →
      (visitAmong? above c (eraseNodes m k ns) p).map (·.attrs.kind) =
        (visitAmong? above' c' ns p).map (·.attrs.kind)
  | [], _ => rfl
  | _ :: _, [] => rfl
  | n :: _, 0 :: p => map_kind_visitIn?_erase n p
  | _ :: ns, (i + 1) :: p => map_kind_visitAmong?_eraseNodes ns (i :: p)

end

theorem SparesAll.congr {m : Mask} {i : Nat} {above : List Attributes} {c : Cursor}
    {ns ns' : List Node} (hs : SparesAll m i above c ns)
    (h : eraseNodes m i ns' = eraseNodes m i ns) : SparesAll m i above c ns' := by
  intro j q v hm hv
  have hkinds : ∀ ns : List Node,
      (visitAmong? above c (eraseNodes m i ns) (j :: q)).map (·.attrs.kind) =
        (visitAmong? above c ns (j :: q)).map (·.attrs.kind) :=
    fun ns => map_kind_visitAmong?_eraseNodes ns (j :: q)
  have hsame := hkinds ns'
  rw [h, hkinds, hv] at hsame
  obtain ⟨u, hu, huv⟩ := Option.map_eq_some_iff.mp hsame
  have hu := hs j q u hm hu
  rwa [huv] at hu

theorem Node.children_erase (m : Mask) (n : Node) :
    (n.erase m).children = eraseNodes m 0 n.children := by
  cases n <;> rfl

theorem ofNode_congr (main : String) {m : Mask} {root root' : Node}
    (hs : SparesAll m 0 [] {} root.children) (h : root'.erase m = root.erase m) :
    ofNode main root' = ofNode main root := by
  have hchildren := congrArg Node.children h
  rw [Node.children_erase, Node.children_erase] at hchildren
  rw [← ofNode_erase main (hs.congr hchildren), h, ofNode_erase main hs]

/-! ## Dumps with a value set -/

/-- Setting the value of a node that is no template argument makes no difference as long as the
value is a text or `null`. Any other value, such as the `true` of a boolean literal or the number of
a character literal, makes the dump unreadable as a whole. -/
theorem accepted_with_value_set {main text text' : String} {v v' w : Json} {rest rest' : List Char}
    {p : List Nat} {s : Surveyed} (htext : readFirst text = .value v rest)
    (htext' : readFirst text' = .value v' rest') (hset : SetsValueAt w p v v')
    (hok : ofText main text = .ok s)
    (hkind : ∀ root n, node? v = some root → root.visit? p = some n →
      n.attrs.kind ≠ "TemplateArgument") :
    ofText main text' = if w.isTextual then .ok s else .error .wrongType := by
  rw [ofText_of_readFirst htext, ofJson] at hok
  rw [ofText_of_readFirst htext', ofJson]
  split_ifs with hw
  · cases he : (Draft.mk {} [] []).fill v with
    | none =>
      rw [node?, he] at hok
      exact nomatch hok
    | some e =>
      obtain ⟨e', he', herase⟩ := Draft.exists_fill hset hw he
      have hnode : node? v = some e.node := by rw [node?, he, Option.map_some]
      have hnode' : node? v' = some e'.node := by rw [node?, he', Option.map_some]
      have hsame : e'.node.erase (.only p) = e.node.erase (.only p) := by
        rw [← Draft.node_erase, herase, Draft.node_erase]
      have hspares : SparesAll (.only p) 0 [] {} e.node.children := by
        intro j q n hm hn
        rw [Nat.zero_add] at hm
        have hp : j :: q = p := of_decide_eq_true hm
        exact hkind e.node n hnode (hp ▸ hn)
      rw [hnode] at hok
      rw [hnode']
      exact (ofNode_congr main hspares hsame).trans hok
  · have hnone : node? v' = none := by
      rw [node?, Draft.fill_eq_none hset hw, Option.map_none]
    rw [hnone]

def literalText (more : String) : String :=
  "\x7b\"kind\":\"TranslationUnitDecl\",\"inner\":[\x7b\"kind\":\"CXXBoolLiteralExpr\"" ++ more ++
    "\x7d]\x7d"

def literalJson (more : List (String × Json)) : Json :=
  .object [("kind", .string "TranslationUnitDecl"),
    ("inner", .array [.object (("kind", .string "CXXBoolLiteralExpr") :: more)])]

theorem readFirst_literalText : readFirst (literalText "") = .value (literalJson []) [] ∧
    readFirst (literalText ",\"value\":true") =
      .value (literalJson [("value", .bool true)]) [] := by
  decide +kernel

theorem setsValueAt_literalJson (w : Json) :
    SetsValueAt w [0] (literalJson []) (literalJson [("value", w)]) := by
  have hkind : sameName "kind" "value" = false := by decide
  have hvalue : sameName "value" "value" := by decide
  have hliteral : SetsValue w [("kind", .string "CXXBoolLiteralExpr")]
      [("kind", .string "CXXBoolLiteralExpr"), ("value", w)] :=
    ⟨⟨"value", by simp [isValueMember, hkind, hvalue]⟩,
      by simp [isValueMember, hkind, hvalue]⟩
  have hinner : sameName "inner" "inner" := by decide
  exact .child hinner [_] [] [] [] (.here hliteral)

theorem exists_ofText_literalText : ∃ s, ofText "main.cc" (literalText "") = .ok s := by
  rw [ofText_of_readFirst readFirst_literalText.1]
  exact ⟨_, rfl⟩

theorem accepted_with_value_set_literal :
    ∃ s, ofText "main.cc" (literalText "") = .ok s ∧
      ofText "main.cc" (literalText ",\"value\":\"true\"") = .ok s := by
  obtain ⟨s, hs⟩ := exists_ofText_literalText
  have htext : readFirst (literalText ",\"value\":\"true\"") =
      .value (literalJson [("value", .string "true")]) [] := by decide +kernel
  have hkind : ∀ root n, node? (literalJson []) = some root → root.visit? [0] = some n →
      n.attrs.kind ≠ "TemplateArgument" := by
    intro root n hroot hn
    obtain rfl := Option.some.inj hroot
    obtain rfl := Option.some.inj hn
    decide
  exact ⟨s, hs, accepted_with_value_set readFirst_literalText.1 htext
    (setsValueAt_literalJson (.string "true")) hs hkind⟩

/-- The value of a boolean literal, which nothing looks at, makes an accepted dump unreadable. -/
theorem boolean_value_unreadable :
    (∃ v v' root n, readFirst (literalText "") = .value v [] ∧
      readFirst (literalText ",\"value\":true") = .value v' [] ∧
      SetsValueAt (.bool true) [0] v v' ∧ node? v = some root ∧ root.visit? [0] = some n ∧
      n.attrs.kind = "CXXBoolLiteralExpr") ∧
    (∃ s, ofText "main.cc" (literalText "") = .ok s) ∧
    ofText "main.cc" (literalText ",\"value\":true") = .error .wrongType := by
  obtain ⟨htext, htext'⟩ := readFirst_literalText
  have hset := setsValueAt_literalJson (.bool true)
  refine ⟨⟨_, _, _, _, htext, htext', hset, rfl, rfl, rfl⟩, exists_ofText_literalText, ?_⟩
  rw [ofText_of_readFirst htext']
  rfl

end Dump

end TemplateCensus
