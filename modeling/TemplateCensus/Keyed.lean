/-!
Finite maps from texts. Entries stand in ascending order of their keys, by code points, so that
two maps with the same entries are equal and listing a map needs no sorting.
-/

namespace TemplateCensus

structure Keyed (α : Type) where
  entries : List (String × α)
  ordered : entries.Pairwise (·.1 < ·.1)
  deriving Repr

namespace Keyed

variable {α β : Type}

def empty : Keyed α := ⟨[], .nil⟩

instance : Inhabited (Keyed α) := ⟨empty⟩

def put (k : String) (a : α) : List (String × α) → List (String × α)
  | [] => [(k, a)]
  | (l, b) :: es =>
    if k < l then (k, a) :: (l, b) :: es
    else if k = l then (k, a) :: es
    else (l, b) :: put k a es

theorem mem_put {k : String} {a : α} {es : List (String × α)} {e : String × α}
    (h : e ∈ put k a es) : e = (k, a) ∨ e ∈ es := by
  induction es with
  | nil => exact .inl (List.mem_singleton.mp h)
  | cons d es ih =>
    rw [put] at h
    split at h
    · exact List.mem_cons.mp h
    · split at h
      · exact (List.mem_cons.mp h).imp_right (List.mem_cons_of_mem d)
      · rcases List.mem_cons.mp h with rfl | h
        · exact .inr List.mem_cons_self
        · exact (ih h).imp_right (List.mem_cons_of_mem d)

theorem ordered_put (k : String) (a : α) {es : List (String × α)}
    (h : es.Pairwise (·.1 < ·.1)) : (put k a es).Pairwise (·.1 < ·.1) := by
  induction es with
  | nil => exact List.pairwise_singleton _ _
  | cons d es ih =>
    obtain ⟨hd, hes⟩ := List.pairwise_cons.mp h
    rw [put]
    split
    next hlt =>
      refine List.pairwise_cons.mpr ⟨fun e he => ?_, h⟩
      rcases List.mem_cons.mp he with rfl | he
      · exact hlt
      · exact String.lt_trans hlt (hd e he)
    next hlt =>
      split
      next heq => exact List.pairwise_cons.mpr ⟨fun e he => heq ▸ hd e he, hes⟩
      next hne =>
        have hgt : d.1 < k := Decidable.byContradiction fun h =>
          hne (String.le_antisymm (String.not_lt.mp h) (String.not_lt.mp hlt))
        refine List.pairwise_cons.mpr ⟨fun e he => ?_, ih hes⟩
        rcases mem_put he with rfl | he
        · exact hgt
        · exact hd e he

def insert (m : Keyed α) (k : String) (a : α) : Keyed α :=
  ⟨put k a m.entries, ordered_put k a m.ordered⟩

def find? (m : Keyed α) (k : String) : Option α := m.entries.lookup k

def contains (m : Keyed α) (k : String) : Bool := (m.find? k).isSome

def merge (m n : Keyed α) : Keyed α := n.entries.foldl (fun acc e => acc.insert e.1 e.2) m

def ofList (es : List (String × α)) : Keyed α :=
  es.foldl (fun acc e => acc.insert e.1 e.2) empty

def map (f : α → β) (m : Keyed α) : Keyed β :=
  ⟨m.entries.map fun e => (e.1, f e.2), List.pairwise_map.mpr m.ordered⟩

def keys (m : Keyed α) : List String := m.entries.map (·.1)

def values (m : Keyed α) : List α := m.entries.map (·.2)

def size (m : Keyed α) : Nat := m.entries.length

end Keyed

def ascending (texts : List String) : List String :=
  (Keyed.ofList (texts.map (·, ()))).keys

end TemplateCensus
