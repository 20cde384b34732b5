import Mathlib.Data.List.Induction
import TemplateCensus.Census.Registry
import TemplateCensus.Proofs.Keyed
import TemplateCensus.Proofs.Text.ByteOrder

/-! Named registries as they lie in memory. A registry holds the addresses of its entries, and a
merge hands the addresses on, so that registries share entries; only new public headers are written
to new cells. Read through the addresses, each operation changes the registry it is meant for, in
the way that the operations on values do, and no other. -/

namespace TemplateCensus

structure Memory where
  cell : Nat → Instantiation
  free : Nat
  shelf : String → Keyed Nat

/-- What is done with registries. An added instantiation is new, or it is one that is in memory
already and may be in other registries too. -/
inductive Operation where
  | add (target : String) (entry : Instantiation)
  | share (target : String) (address : Nat)
  | merge (target source : String)
  | canonicalize (target source : String) (table : HeaderTable)

namespace Memory

def empty : Memory := ⟨fun _ => ⟨"", "", "", [], none⟩, 0, fun _ => .empty⟩

def read (m : Memory) (n : String) : Registry := (m.shelf n).map m.cell

def keep (m : Memory) (i : Instantiation) : Memory :=
  { m with cell := Function.update m.cell m.free i, free := m.free + 1 }

def bind (m : Memory) (n : String) (r : Keyed Nat) : Memory :=
  { m with shelf := Function.update m.shelf n r }

def place (m : Memory) (n : String) (p : Nat) : Memory :=
  m.bind n ((m.shelf n).insert (m.cell p).type p)

def copyEntry (t : HeaderTable) (s : Memory × Keyed Nat) (e : String × Nat) : Memory × Keyed Nat :=
  (s.1.keep (Registry.publish t (s.1.cell e.2)), s.2.insert e.1 s.1.free)

def step (m : Memory) : Operation → Memory
  | .add n i => (m.keep i).place n m.free
  | .share n p => if p < m.free then m.place n p else m
  | .merge n s => m.bind n ((m.shelf n).merge (m.shelf s))
  | .canonicalize n s t =>
    let copied := (m.shelf s).entries.foldl (copyEntry t) (m, .empty)
    copied.1.bind n copied.2

def run (ops : List Operation) : Memory := ops.foldl step empty

end Memory

namespace Operation

def target : Operation → String
  | add n _ | share n _ | merge n _ | canonicalize n _ _ => n

def effect (m : Memory) : Operation → Registry
  | add n i => (m.read n).add i
  | share n p => if p < m.free then (m.read n).add (m.cell p) else m.read n
  | merge n s => (m.read n).merge (m.read s)
  | canonicalize _ s t => (m.read s).canonicalize t

end Operation

namespace Memory

def Valid (m : Memory) : Prop := ∀ n, ∀ p ∈ (m.shelf n).values, p < m.free

structure Extends (m m' : Memory) : Prop where
  shelf : m'.shelf = m.shelf
  free : m.free ≤ m'.free
  cell : ∀ p < m.free, m'.cell p = m.cell p

theorem Extends.refl (m : Memory) : m.Extends m := ⟨rfl, le_rfl, fun _ _ => rfl⟩

theorem Extends.trans {m m' m'' : Memory} (h : m.Extends m') (h' : m'.Extends m'') :
    m.Extends m'' where
  shelf := h'.shelf.trans h.shelf
  free := h.free.trans h'.free
  cell p hp := (h'.cell p (hp.trans_le h.free)).trans (h.cell p hp)

theorem extends_keep (m : Memory) (i : Instantiation) : m.Extends (m.keep i) where
  shelf := rfl
  free := Nat.le_succ _
  cell _ hp := Function.update_of_ne hp.ne _ _

theorem cell_keep (m : Memory) (i : Instantiation) : (m.keep i).cell m.free = i :=
  Function.update_self ..

theorem Extends.map_cell {m m' : Memory} (h : m.Extends m') {r : Keyed Nat}
    (hr : ∀ p ∈ r.values, p < m.free) : r.map m'.cell = r.map m.cell :=
  Keyed.map_congr fun p hp => h.cell p (hr p hp)

theorem Extends.read {m m' : Memory} (h : m.Extends m') (hm : m.Valid) : m'.read = m.read := by
  funext n
  rw [Memory.read, h.shelf]
  exact h.map_cell (hm n)

theorem Extends.valid {m m' : Memory} (h : m.Extends m') (hm : m.Valid) : m'.Valid := by
  intro n p hp
  rw [h.shelf] at hp
  exact (hm n p hp).trans_le h.free

theorem shelf_bind (m : Memory) (n l : String) (r : Keyed Nat) :
    (m.bind n r).shelf l = if l = n then r else m.shelf l := Function.update_apply ..

theorem read_bind (m : Memory) (n : String) (r : Keyed Nat) :
    (m.bind n r).read = Function.update m.read n (r.map m.cell) := by
  funext l
  rw [Memory.read, shelf_bind, Function.update_apply, apply_ite (Keyed.map _)]
  rfl

theorem valid_bind {m : Memory} (hm : m.Valid) {r : Keyed Nat} (hr : ∀ p ∈ r.values, p < m.free)
    (n : String) : (m.bind n r).Valid := by
  intro l p hp
  rw [shelf_bind] at hp
  split_ifs at hp
  · exact hr p hp
  · exact hm l p hp

theorem lt_of_mem_values_insert {r : Keyed Nat} {k : String} {a b : Nat} (ha : a < b)
    (hr : ∀ p ∈ r.values, p < b) : ∀ p ∈ (r.insert k a).values, p < b := by
  intro p hp
  obtain ⟨l, hl⟩ := Keyed.mem_values.mp hp
  rw [Keyed.find?_insert] at hl
  split_ifs at hl
  · exact Option.some.inj hl ▸ ha
  · exact hr p (Keyed.mem_values.mpr ⟨l, hl⟩)

theorem lt_of_mem_values_merge {r s : Keyed Nat} {b : Nat} (hr : ∀ p ∈ r.values, p < b)
    (hs : ∀ p ∈ s.values, p < b) : ∀ p ∈ (r.merge s).values, p < b := by
  intro p hp
  obtain ⟨l, hl⟩ := Keyed.mem_values.mp hp
  rw [Keyed.find?_merge, Option.or_eq_some_iff] at hl
  rcases hl with hl | ⟨-, hl⟩
  · exact hs p (Keyed.mem_values.mpr ⟨l, hl⟩)
  · exact hr p (Keyed.mem_values.mpr ⟨l, hl⟩)

theorem read_place (m : Memory) (n : String) (p : Nat) :
    (m.place n p).read = Function.update m.read n ((m.read n).add (m.cell p)) := by
  rw [place, read_bind, Keyed.map_insert]
  rfl

theorem valid_place {m : Memory} (hm : m.Valid) (n : String) {p : Nat} (hp : p < m.free) :
    (m.place n p).Valid := valid_bind hm (lt_of_mem_values_insert hp (hm n)) n

/-- The copies of a list of entries: memory only grows, and what the new registry reads is what
putting the rewritten entries one by one into the old one gives. -/
theorem copyEntries_spec (t : HeaderTable) (es : List (String × Nat)) (m : Memory) (r : Keyed Nat)
    (hes : ∀ e ∈ es, e.2 < m.free) (hr : ∀ p ∈ r.values, p < m.free) :
    m.Extends (es.foldl (copyEntry t) (m, r)).1 ∧
      (∀ p ∈ (es.foldl (copyEntry t) (m, r)).2.values,
        p < (es.foldl (copyEntry t) (m, r)).1.free) ∧
      (es.foldl (copyEntry t) (m, r)).2.map (es.foldl (copyEntry t) (m, r)).1.cell =
        es.foldl (fun acc e => acc.insert e.1 (Registry.publish t (m.cell e.2)))
          (r.map m.cell) := by
  induction es generalizing m r with
  | nil => exact ⟨.refl m, hr, rfl⟩
  | cons e es ih =>
    -- the cells of the entries still to come are not touched by the copy of this one
    have hext := m.extends_keep (Registry.publish t (m.cell e.2))
    have hes' : ∀ d ∈ es, d.2 < m.free := fun d hd => hes d (List.mem_cons_of_mem e hd)
    have hr' := lt_of_mem_values_insert (k := e.1) (Nat.lt_succ_self m.free)
      fun p hp => (hr p hp).trans_le hext.free
    obtain ⟨hgrow, hvalid, hread⟩ := ih _ _ (fun d hd => (hes' d hd).trans_le hext.free) hr'
    refine ⟨hext.trans hgrow, hvalid, hread.trans ?_⟩
    rw [List.foldl_cons, Keyed.map_insert, cell_keep, hext.map_cell hr]
    apply List.foldl_ext
    intro acc d hd
    rw [hext.cell d.2 (hes' d hd)]

theorem step_canonicalize {m : Memory} (hm : m.Valid) (n s : String) (t : HeaderTable) :
    (m.step (.canonicalize n s t)).Valid ∧ (m.step (.canonicalize n s t)).read =
      Function.update m.read n ((m.read s).canonicalize t) := by
  have hes : ∀ e ∈ (m.shelf s).entries, e.2 < m.free := fun e he =>
    hm s e.2 (List.mem_map_of_mem he)
  obtain ⟨hgrow, hvalid, hread⟩ := copyEntries_spec t (m.shelf s).entries m .empty hes nofun
  refine ⟨valid_bind (hgrow.valid hm) hvalid n, ?_⟩
  rw [step, read_bind, hgrow.read hm, hread]
  apply congrArg
  calc
    _ = (m.shelf s).map fun p => Registry.publish t (m.cell p) :=
      Keyed.foldl_insert_map (fun p => Registry.publish t (m.cell p)) (m.shelf s)
    _ = (m.read s).canonicalize t := Keyed.map_map _ _ _

/-- One operation: addresses stay good, the target becomes what the operation makes of the
registries that were read, and all others read as before. -/
theorem step_spec {m : Memory} (hm : m.Valid) (op : Operation) :
    (m.step op).Valid ∧ (m.step op).read = Function.update m.read op.target (op.effect m) := by
  cases op with
  | add n i =>
    have hext := m.extends_keep i
    refine ⟨valid_place (hext.valid hm) n (Nat.lt_succ_self m.free), ?_⟩
    rw [step, read_place, hext.read hm, cell_keep]
    rfl
  | share n p =>
    rw [step, Operation.effect, Operation.target]
    split_ifs with hp
    · exact ⟨valid_place hm n hp, m.read_place n p⟩
    · exact ⟨hm, (Function.update_eq_self ..).symm⟩
  | merge n s =>
    refine ⟨valid_bind hm (lt_of_mem_values_merge (hm n) (hm s)) n, ?_⟩
    rw [step, read_bind, Keyed.map_merge]
    rfl
  | canonicalize n s t => exact step_canonicalize hm n s t

end Memory

inductive Event where
  | cleared
  | wrote (key : String) (entry : Instantiation)

def Event.apply (r : Registry) : Event → Registry
  | cleared => .empty
  | wrote k i => r.insert k i

def Operation.events (m : Memory) : Operation → List Event
  | add _ i => [.wrote i.type i]
  | share _ p => if p < m.free then [.wrote (m.cell p).type (m.cell p)] else []
  | merge _ s => (m.read s).entries.map fun e => .wrote e.1 e.2
  | canonicalize _ s t =>
    .cleared :: (m.read s).entries.map fun e => .wrote e.1 (Registry.publish t e.2)

theorem Operation.effect_eq_foldl (m : Memory) (op : Operation) :
    op.effect m = (op.events m).foldl Event.apply (m.read op.target) := by
  cases op with
  | add n i => rfl
  | share n p =>
    rw [effect, events]
    split_ifs <;> rfl
  | merge n s =>
    rw [events, List.foldl_map]
    rfl
  | canonicalize n s t =>
    rw [events, List.foldl_cons, List.foldl_map]
    exact (Keyed.foldl_insert_map (Registry.publish t) (m.read s)).symm

namespace Memory

def history (n : String) (m : Memory) : List Operation → List Event
  | [] => []
  | op :: ops => (if op.target = n then op.events m else []) ++ (m.step op).history n ops

theorem read_step {m : Memory} (hm : m.Valid) (op : Operation) (n : String) :
    (m.step op).read n =
      (if op.target = n then op.events m else []).foldl Event.apply (m.read n) := by
  rw [(step_spec hm op).2, Function.update_apply]
  by_cases h : op.target = n
  · rw [if_pos h, if_pos h.symm, op.effect_eq_foldl m, h]
  · rw [if_neg h, if_neg (Ne.symm h)]
    rfl

theorem read_foldl {m : Memory} (hm : m.Valid) (ops : List Operation) (n : String) :
    (ops.foldl step m).read n = (m.history n ops).foldl Event.apply (m.read n) := by
  induction ops generalizing m with
  | nil => rfl
  | cons op ops ih =>
    rw [List.foldl_cons, ih (step_spec hm op).1, history, List.foldl_append, read_step hm op n]

end Memory

/-- The entry was written under the key, the registry was not given up since, and nothing else was
written under the key. -/
def IsLatest (es : List Event) (k : String) (i : Instantiation) : Prop :=
  ∃ before after, es = before ++ .wrote k i :: after ∧
    ∀ e ∈ after, e ≠ .cleared ∧ ∀ j, e ≠ .wrote k j

theorem not_isLatest_nil (k : String) (i : Instantiation) : ¬ IsLatest [] k i := by
  rintro ⟨before, after, h, -⟩
  exact List.append_ne_nil_of_right_ne_nil before (List.cons_ne_nil _ after) h.symm

theorem isLatest_concat {es : List Event} {e : Event} {k : String} {i : Instantiation} :
    IsLatest (es ++ [e]) k i ↔
      e = .wrote k i ∨ (e ≠ .cleared ∧ ∀ j, e ≠ .wrote k j) ∧ IsLatest es k i := by
  constructor
  · rintro ⟨before, after, h, hafter⟩
    rcases List.eq_nil_or_concat after with rfl | ⟨after', e', rfl⟩
    · exact .inl (List.singleton_inj.mp (List.append_inj_right' h rfl))
    · rw [List.concat_eq_append, ← List.cons_append, ← List.append_assoc] at h
      obtain ⟨rfl, he⟩ := List.append_inj' h rfl
      obtain rfl := List.singleton_inj.mp he
      rw [List.concat_eq_append] at hafter
      exact .inr ⟨hafter e (List.mem_append_right _ List.mem_cons_self), before, after', rfl,
        fun d hd => hafter d (List.mem_append_left _ hd)⟩
  · rintro (rfl | ⟨he, before, after, rfl, hafter⟩)
    · exact ⟨es, [], rfl, nofun⟩
    · refine ⟨before, after ++ [e], by rw [List.append_assoc, List.cons_append], fun d hd => ?_⟩
      rcases List.mem_append.mp hd with hd | hd
      · exact hafter d hd
      · exact List.mem_singleton.mp hd ▸ he

theorem find?_foldl_apply (es : List Event) (k : String) (i : Instantiation) :
    (es.foldl Event.apply .empty).find? k = some i ↔ IsLatest es k i := by
  induction es using List.reverseRecOn with
  | nil => simp [not_isLatest_nil]
  | append_singleton es e ih =>
    rw [List.foldl_concat, isLatest_concat, ← ih]
    cases e with
    | cleared => simp [Event.apply]
    | wrote l j =>
      rw [Event.apply, Keyed.find?_insert]
      by_cases h : k = l
      · subst h
        simp
      · simp [h, Ne.symm h]

namespace Registry

def IsKeyed (r : Registry) : Prop := ∀ k i, r.find? k = some i → i.type = k

theorem isKeyed_empty : IsKeyed .empty := nofun

theorem IsKeyed.add {r : Registry} (h : r.IsKeyed) (i : Instantiation) : (r.add i).IsKeyed := by
  intro k j hj
  rw [Registry.add, Keyed.find?_insert] at hj
  split_ifs at hj with hk
  · exact Option.some.inj hj ▸ hk.symm
  · exact h k j hj

theorem IsKeyed.merge {r s : Registry} (hr : r.IsKeyed) (hs : s.IsKeyed) :
    IsKeyed (r.merge s) := by
  intro k i hi
  rw [Keyed.find?_merge, Option.or_eq_some_iff] at hi
  rcases hi with hi | ⟨-, hi⟩
  · exact hs k i hi
  · exact hr k i hi

theorem IsKeyed.canonicalize {r : Registry} (h : r.IsKeyed) (t : HeaderTable) :
    (r.canonicalize t).IsKeyed := by
  intro k i hi
  rw [Registry.canonicalize, Keyed.find?_map] at hi
  obtain ⟨j, hj, rfl⟩ := Option.map_eq_some_iff.mp hi
  exact h k j hj

theorem mem_sorted {r : Registry} {i : Instantiation} : i ∈ r.sorted ↔ i ∈ r.values :=
  List.mem_mergeSort

theorem IsKeyed.mem_sorted {r : Registry} (h : r.IsKeyed) {i : Instantiation} :
    i ∈ r.sorted ↔ r.find? i.type = some i := by
  rw [Registry.mem_sorted, Keyed.mem_values]
  constructor
  · rintro ⟨k, hk⟩
    exact h k i hk ▸ hk
  · exact fun hi => ⟨i.type, hi⟩

theorem IsKeyed.pairwise_values {r : Registry} (h : r.IsKeyed) :
    r.values.Pairwise fun i j => i.type < j.type := by
  rw [Keyed.values, List.pairwise_map]
  refine r.ordered.imp_of_mem fun {d e} hd he hlt => ?_
  rw [h d.1 d.2 (Keyed.find?_eq_some_iff.mpr hd), h e.1 e.2 (Keyed.find?_eq_some_iff.mpr he)]
  exact hlt

theorem IsKeyed.sorted_eq_values {r : Registry} (h : r.IsKeyed) : r.sorted = r.values :=
  List.mergeSort_of_pairwise (h.pairwise_values.imp fun hlt => decide_eq_true hlt.le)

/-- A map may give its values in any order, and the sort need not be stable: there is one listing by
type. -/
theorem IsKeyed.eq_sorted_of_perm {r : Registry} (h : r.IsKeyed) {is : List Instantiation}
    (hperm : is.Perm r.values) (hord : is.Pairwise fun i j => i.type ≤ j.type) :
    is = r.sorted := by
  rw [h.sorted_eq_values]
  refine hperm.eq_of_pairwise (fun i j hi hj hij hji => ?_) hord
    (h.pairwise_values.imp fun hlt => hlt.le)
  have hfind : ∀ k ∈ r.values, r.find? k.type = some k := fun k hk =>
    h.mem_sorted.mp (Registry.mem_sorted.mpr hk)
  have htype : i.type = j.type := le_antisymm hij hji
  have hi' := hfind i (hperm.mem_iff.mp hi)
  rw [htype, hfind j hj] at hi'
  exact (Option.some.inj hi').symm

theorem IsKeyed.pairwise_sorted {r : Registry} (h : r.IsKeyed) :
    r.sorted.Pairwise fun i j => Text.bytes i.type < Text.bytes j.type := by
  rw [h.sorted_eq_values]
  exact h.pairwise_values.imp Text.bytes_lt_bytes_iff.mpr

theorem IsKeyed.count_sorted {r : Registry} (h : r.IsKeyed) (i : Instantiation) :
    r.sorted.count i = if r.find? i.type = some i then 1 else 0 := by
  have hnodup : r.sorted.Nodup := h.pairwise_sorted.imp fun hlt heq =>
    absurd (heq ▸ hlt) (List.lt_irrefl _)
  rw [hnodup.count, if_congr h.mem_sorted rfl rfl]

theorem pairwise_headers (r : Registry) :
    r.headers.Pairwise fun g h => Text.bytes g < Text.bytes h :=
  (pairwise_ascending _).imp Text.bytes_lt_bytes_iff.mpr

theorem mem_headers {r : Registry} {h : String} :
    h ∈ r.headers ↔ ∃ k i, r.find? k = some i ∧ i.source = h := by
  rw [headers, mem_ascending, List.mem_map]
  constructor
  · rintro ⟨i, hi, rfl⟩
    obtain ⟨k, hk⟩ := Keyed.mem_values.mp hi
    exact ⟨k, i, hk, rfl⟩
  · rintro ⟨k, i, hk, rfl⟩
    exact ⟨i, Keyed.mem_values.mpr ⟨k, hk⟩, rfl⟩

end Registry

theorem Operation.isKeyed_effect {m : Memory} (h : ∀ n, (m.read n).IsKeyed) (op : Operation) :
    (op.effect m).IsKeyed := by
  cases op with
  | add n i => exact (h n).add i
  | share n p =>
    rw [effect]
    split_ifs
    · exact (h n).add _
    · exact h n
  | merge n s => exact (h n).merge (h s)
  | canonicalize n s t => exact (h s).canonicalize t

namespace Memory

theorem valid_empty : empty.Valid := nofun

theorem valid_run (ops : List Operation) : (run ops).Valid := by
  suffices ∀ m : Memory, m.Valid → (ops.foldl step m).Valid from this empty valid_empty
  induction ops with
  | nil => exact fun m hm => hm
  | cons op ops ih => exact fun m hm => ih (m.step op) (step_spec hm op).1

theorem run_concat (ops : List Operation) (op : Operation) :
    run (ops ++ [op]) = (run ops).step op := List.foldl_concat ..

theorem isKeyed_run (ops : List Operation) (n : String) : ((run ops).read n).IsKeyed := by
  induction ops using List.reverseRecOn generalizing n with
  | nil => exact Registry.isKeyed_empty
  | append_singleton ops op ih =>
    rw [run_concat, (step_spec (valid_run ops) op).2, Function.update_apply]
    split_ifs
    · exact op.isKeyed_effect ih
    · exact ih n

/-- After any operations on any registries, whatever they share: every entry stands under its type
and was written there last; the listings are complete, without repetition and in ascending order of
bytes; and one more operation leaves all registries but its target as they are. -/
theorem registries_of_run (ops : List Operation) :
    (∀ n k i, ((run ops).read n).find? k = some i → i.type = k) ∧
      (∀ n, ((run ops).read n).sorted.Pairwise
          (fun i j => Text.bytes i.type < Text.bytes j.type) ∧
        ∀ i, ((run ops).read n).sorted.count i =
          if ((run ops).read n).find? i.type = some i then 1 else 0) ∧
      (∀ n, ((run ops).read n).headers.Pairwise (fun g h => Text.bytes g < Text.bytes h) ∧
        ∀ h, h ∈ ((run ops).read n).headers ↔
          ∃ k i, ((run ops).read n).find? k = some i ∧ i.source = h) ∧
      (∀ n k i, ((run ops).read n).find? k = some i ↔ IsLatest (empty.history n ops) k i) ∧
      ∀ op n, n ≠ op.target → (run (ops ++ [op])).read n = (run ops).read n := by
  have hkeyed := isKeyed_run ops
  refine ⟨hkeyed, fun n => ⟨(hkeyed n).pairwise_sorted, (hkeyed n).count_sorted⟩,
    fun n => ⟨Registry.pairwise_headers _, fun h => Registry.mem_headers⟩, ?_, ?_⟩
  · intro n k i
    rw [run, read_foldl valid_empty]
    exact find?_foldl_apply _ k i
  · intro op n hn
    rw [run_concat, (step_spec (valid_run ops) op).2, Function.update_of_ne hn]

end Memory

end TemplateCensus
