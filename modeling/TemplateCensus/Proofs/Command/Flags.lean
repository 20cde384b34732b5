import Mathlib.Data.List.FinRange
import TemplateCensus.Command.Entry

/-! Which words of a command line are flags. A word is left out for what it says, or because it
belongs to the option in front of it, whatever it says. What remains would be left out for neither
reason, so that nothing more is left out when the flags are taken for a command line themselves. -/

namespace TemplateCensus.CompileCommand
variable {c : CompileCommand} {compiler v w : String} {ws : List String}

/-- The words that are set aside wherever they stand: the options that select an output, the mark
that ends the options, and the source file under any of its names. -/
def SetsAside (c : CompileCommand) (word : String) : Prop :=
  word ∈ ["-c", "-MD", "-MMD", "-MF", "-MT", "-MQ", "--"] ∨ "-o".toList <+: word.toList ∨
    ¬ "-".toList <+: word.toList ∧ Path.within c.directory word = c.path

instance (c : CompileCommand) (word : String) : Decidable (c.SetsAside word) :=
  inferInstanceAs (Decidable (_ ∨ _ ∨ _ ∧ _))

/-- Does the word at a position belong to the option in front of it? An option that belongs to
another one takes no word. -/
def IsOperand (ws : List String) : Nat → Prop
  | 0 => False
  | i + 1 => (∃ option ∈ pairedOptions, ws[i]? = some option) ∧ ¬ IsOperand ws i

instance decidableIsOperand (ws : List String) : (i : Nat) → Decidable (IsOperand ws i)
  | 0 => inferInstanceAs (Decidable False)
  | i + 1 =>
    have := decidableIsOperand ws i
    inferInstanceAs (Decidable (_ ∧ ¬ IsOperand ws i))

def positions (keep : Nat → String → Bool) (ws : List String) : List (Fin ws.length) :=
  (List.finRange ws.length).filter fun i => keep i (ws.get i)

def flagPositions (c : CompileCommand) (ws : List String) : List (Fin ws.length) :=
  positions (fun i w => ¬ c.SetsAside w ∧ ¬ IsOperand ws i) ws

theorem isDropped_iff : c.isDropped w = true ↔ w ∈ lonelyOptions ∨ "-o".toList <+: w.toList ∨
    (¬ "-".toList <+: w.toList ∧ Path.within c.directory w = c.path) ∨ w = "--" := by
  have hdash : "-".toList <+: w.toList ↔ w.toList.head? = some '-' := by
    cases w.toList <;> simp [eq_comm]
  simp only [isDropped, hdash, Bool.or_eq_true, Bool.and_eq_true, List.contains_iff_mem,
    List.isPrefixOf_iff_prefix, decide_eq_true_eq, or_assoc]

theorem setsAside_iff : c.SetsAside w ↔ w ∈ pairedOptions ∨ c.isDropped w = true := by
  have hwords : w ∈ ["-c", "-MD", "-MMD", "-MF", "-MT", "-MQ", "--"] ↔
      w ∈ lonelyOptions ∨ w ∈ pairedOptions.tail ∨ w = "--" := by
    simp [lonelyOptions, pairedOptions, or_assoc]
  have hpaired : w ∈ pairedOptions ↔ w = "-o" ∨ w ∈ pairedOptions.tail := List.mem_cons
  rw [SetsAside, isDropped_iff, hwords, hpaired]
  constructor
  · rintro ((h | h | h) | h | h)
    · exact .inr (.inl h)
    · exact .inl (.inr h)
    · exact .inr (.inr (.inr (.inr h)))
    · exact .inr (.inr (.inl h))
    · exact .inr (.inr (.inr (.inl h)))
  · rintro ((rfl | h) | h | h | h | h)
    · exact .inr (.inl (List.prefix_refl _))
    · exact .inl (.inr (.inl h))
    · exact .inl (.inl h)
    · exact .inr (.inl h)
    · exact .inr (.inr h)
    · exact .inl (.inr (.inr h))

theorem kept_cons (c : CompileCommand) (w : String) (ws : List String) :
    c.kept (w :: ws) = if w ∈ pairedOptions then c.kept ws.tail
      else if c.isDropped w then c.kept ws else w :: c.kept ws := by
  cases ws with
  | nil =>
    by_cases hpaired : w ∈ pairedOptions <;> simp [kept, hpaired]
  | cons v ws => simp [kept]

theorem kept_congr {d : CompileCommand} (h : ∀ w, d.isDropped w = c.isDropped w) :
    (ws : List String) → d.kept ws = c.kept ws
  | [] => rfl
  | [w] => by rw [kept, kept, h]
  | w :: v :: ws => by rw [kept, kept, h, kept_congr h ws, kept_congr h (v :: ws)]

/-! ## Operands -/

theorem isOperand_cons (h : w ∉ pairedOptions) (i : Nat) :
    IsOperand (w :: ws) (i + 1) ↔ IsOperand ws i := by
  induction i with
  | zero => simp [IsOperand, h]
  | succ i ih => rw [IsOperand, ih, IsOperand, List.getElem?_cons_succ]

theorem isOperand_one (h : w ∈ pairedOptions) (ws : List String) : IsOperand (w :: ws) 1 := by
  simp [IsOperand, h]

theorem isOperand_cons_cons (h : w ∈ pairedOptions) (v : String) (ws : List String) (i : Nat) :
    IsOperand (w :: v :: ws) (i + 2) ↔ IsOperand ws i := by
  induction i with
  | zero => simp [IsOperand, h]
  | succ i ih => rw [IsOperand, ih, IsOperand, List.getElem?_cons_succ, List.getElem?_cons_succ]

/-! ## The scan -/

theorem map_get_positions_cons (keep : Nat → String → Bool) (w : String) (ws : List String) :
    (positions keep (w :: ws)).map (w :: ws).get =
      (if keep 0 w then [w] else []) ++ (positions (fun i => keep (i + 1)) ws).map ws.get := by
  have hrange : List.finRange (w :: ws).length = 0 :: (List.finRange ws.length).map Fin.succ :=
    List.finRange_succ
  unfold positions
  rw [hrange, List.filter_cons, List.filter_map]
  change List.map _ (if keep 0 w then _ else _) = _
  cases keep 0 w with
  | true => exact congrArg (w :: ·) List.map_map
  | false => exact List.map_map

theorem map_get_flagPositions_cons (h : w ∉ pairedOptions) (ws : List String) :
    (c.flagPositions (w :: ws)).map (w :: ws).get =
      (if c.isDropped w then [] else [w]) ++ (c.flagPositions ws).map ws.get := by
  have hfirst : (¬ c.SetsAside w ∧ ¬ IsOperand (w :: ws) 0) ↔ ¬ c.isDropped w = true := by
    simp [setsAside_iff, IsOperand, h]
  rw [flagPositions, map_get_positions_cons, flagPositions]
  simp only [isOperand_cons h, decide_eq_true_eq, hfirst, ite_not]

theorem map_get_flagPositions_cons_cons (h : w ∈ pairedOptions) (v : String) (ws : List String) :
    (c.flagPositions (w :: v :: ws)).map (w :: v :: ws).get = (c.flagPositions ws).map ws.get := by
  have hoption : c.SetsAside w := setsAside_iff.mpr (.inl h)
  have hword : IsOperand (w :: v :: ws) (0 + 1) := isOperand_one h (v :: ws)
  rw [flagPositions, map_get_positions_cons, map_get_positions_cons, flagPositions]
  simp [isOperand_cons_cons h, hoption, hword]

theorem kept_eq_map_get (c : CompileCommand) :
    (ws : List String) → c.kept ws = (c.flagPositions ws).map ws.get
  | [] => rfl
  | w :: ws => by
    by_cases hpaired : w ∈ pairedOptions
    · rw [kept_cons, if_pos hpaired]
      cases ws with
      | nil =>
        have hoption : c.SetsAside w := setsAside_iff.mpr (.inl hpaired)
        rw [flagPositions, map_get_positions_cons]
        simp [positions, kept, hoption]
      | cons v ws =>
        rw [map_get_flagPositions_cons_cons hpaired, List.tail_cons, kept_eq_map_get c ws]
    · rw [kept_cons, if_neg hpaired, map_get_flagPositions_cons hpaired, kept_eq_map_get c ws]
      split <;> rfl

theorem mem_flagPositions {i : Fin ws.length} :
    i ∈ c.flagPositions ws ↔ ¬ c.SetsAside (ws.get i) ∧ ¬ IsOperand ws i := by
  rw [flagPositions, positions, List.mem_filter, decide_eq_true_iff,
    and_iff_right (List.mem_finRange i)]

theorem pairwise_flagPositions (c : CompileCommand) (ws : List String) :
    (c.flagPositions ws).Pairwise (· < ·) := (List.pairwise_lt_finRange _).filter _

theorem not_setsAside_of_mem_kept (h : w ∈ c.kept ws) : ¬ c.SetsAside w := by
  rw [kept_eq_map_get] at h
  obtain ⟨i, hi, rfl⟩ := List.mem_map.mp h
  exact (mem_flagPositions.mp hi).1

theorem kept_sublist (c : CompileCommand) (ws : List String) : (c.kept ws).Sublist ws := by
  have hsub : ((c.flagPositions ws).map ws.get).Sublist ((List.finRange ws.length).map ws.get) :=
    List.filter_sublist.map _
  rwa [← kept_eq_map_get, List.map_get_finRange] at hsub

theorem kept_eq_self (h : ∀ w ∈ ws, ¬ c.SetsAside w) : c.kept ws = ws := by
  induction ws with
  | nil => rfl
  | cons w ws ih =>
    obtain ⟨hw, hws⟩ := List.forall_mem_cons.mp h
    obtain ⟨hpaired, hdropped⟩ := not_or.mp (mt setsAside_iff.mpr hw)
    rw [kept_cons, if_neg hpaired, if_neg hdropped, ih hws]

/-- The flags of a command are exactly the words that are neither set aside nor operands, in their
order; and they are the flags of the command that has them for its arguments. -/
theorem flags_exactly (h : c.argv? = some (compiler :: ws)) :
    ∃ fs, c.flags? = some fs ∧ fs.Sublist ws ∧ (∀ w ∈ fs, ¬ c.SetsAside w) ∧
      (∃ positions : List (Fin ws.length), positions.Pairwise (· < ·) ∧
        fs = positions.map ws.get ∧
        ∀ i, i ∉ positions ↔ c.SetsAside (ws.get i) ∨ IsOperand ws i) ∧
      { c with arguments := compiler :: fs }.flags? = some fs := by
  have hkept : ∀ w ∈ c.kept ws, ¬ c.SetsAside w := fun w => not_setsAside_of_mem_kept
  refine ⟨c.kept ws, ?_, kept_sublist c ws, hkept, ?_, ?_⟩
  · rw [flags?, h]
    rfl
  · refine ⟨c.flagPositions ws, pairwise_flagPositions c ws, kept_eq_map_get c ws, fun i => ?_⟩
    rw [mem_flagPositions, not_and_or, not_not, not_not]
  · have hagain : { c with arguments := compiler :: c.kept ws }.kept (c.kept ws) = c.kept ws :=
      (kept_congr (fun _ => rfl) _).trans (kept_eq_self hkept)
    exact congrArg some hagain

def crowded : CompileCommand where
  directory := "/src/build"
  file := "../main.cc"
  arguments := ["c++", "-o", "-o", "-c", "-MF", "-DX", "--", "-DY", "main.cc", "/src/./main.cc",
    "-omain.o", "-MT"]

theorem flags_exactly_crowded :
    crowded.argv? = some crowded.arguments ∧ crowded.flags? = some ["-DY", "main.cc"] ∧
      (∀ w ∈ ["-DY", "main.cc"], ¬ crowded.SetsAside w) ∧
      { crowded with arguments := ["c++", "-DY", "main.cc"] }.flags? =
        some ["-DY", "main.cc"] := by
  have hflags : crowded.flags? = some ["-DY", "main.cc"] := by decide +kernel
  obtain ⟨fs, hfs, -, hkept, -, hagain⟩ := flags_exactly (c := crowded) rfl
  obtain rfl := Option.some.inj (hfs.symm.trans hflags)
  exact ⟨rfl, hflags, hkept, hagain⟩

end TemplateCensus.CompileCommand
