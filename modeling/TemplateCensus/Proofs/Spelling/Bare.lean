import TemplateCensus.Spelling.Bare
import TemplateCensus.Proofs.Spelling.Normal
import TemplateCensus.Proofs.Text.Blank

/-! Bare spellings. Peeling takes whole qualifiers, references and blanks off the ends and touches
nothing inside, so it keeps a normal spelling normal and a second round over the result changes
nothing. -/

namespace TemplateCensus.Spelling
open Text

def MadeOf (ps : List (List Char)) (s : List Char) : Prop :=
  ∃ xs : List (List Char), (∀ x ∈ xs, x ∈ ps) ∧ s = xs.flatten

theorem MadeOf.nil (ps : List (List Char)) : MadeOf ps [] := ⟨[], by simp, rfl⟩

theorem MadeOf.of_mem {ps : List (List Char)} {s : List Char} (h : s ∈ ps) : MadeOf ps s :=
  ⟨[s], by simpa using h, by simp⟩

theorem MadeOf.append {ps : List (List Char)} {s t : List Char} (hs : MadeOf ps s)
    (ht : MadeOf ps t) : MadeOf ps (s ++ t) := by
  obtain ⟨xs, hxs, rfl⟩ := hs
  obtain ⟨ys, hys, rfl⟩ := ht
  refine ⟨xs ++ ys, fun x hx => ?_, by simp⟩
  rcases List.mem_append.mp hx with hx | hx
  · exact hxs x hx
  · exact hys x hx

theorem MadeOf.reverse {ps : List (List Char)} {s : List Char}
    (h : MadeOf (ps.map List.reverse) s) :
    MadeOf ps s.reverse := by
  obtain ⟨xs, hxs, rfl⟩ := h
  refine ⟨(xs.map List.reverse).reverse, fun x hx => ?_, List.reverse_flatten⟩
  obtain ⟨y, hy, rfl⟩ := List.mem_map.mp (List.mem_reverse.mp hx)
  obtain ⟨z, hz, rfl⟩ := List.mem_map.mp (hxs y hy)
  rwa [List.reverse_reverse]

def Behind (ps : List (List Char)) (t s : List Char) : Prop := ∃ v, MadeOf ps v ∧ s = v ++ t

theorem Behind.trans {ps : List (List Char)} {s t u : List Char} (hst : Behind ps s t)
    (htu : Behind ps t u) : Behind ps s u := by
  obtain ⟨v, hv, rfl⟩ := hst
  obtain ⟨w, hw, rfl⟩ := htu
  exact ⟨w ++ v, hw.append hv, by rw [List.append_assoc]⟩

theorem dropStart_behind {ps : List (List Char)} {t : List Char} (ht : MadeOf ps t)
    (s : List Char) : Behind ps (dropStart t s) s := by
  rcases eq_append_dropStart t s with h | h
  · exact ⟨t, ht, h⟩
  · exact ⟨[], .nil ps, h⟩

theorem dropBlanks_behind {ps : List (List Char)} (hps : [' '] ∈ ps) {s : List Char}
    (hs : ∀ c ∈ s, isBlank c → c = ' ') : Behind ps (s.dropWhile isBlank) s := by
  induction s with
  | nil => exact ⟨[], .nil ps, rfl⟩
  | cons c cs ih =>
    by_cases hc : isBlank c
    · obtain rfl : c = ' ' := hs c List.mem_cons_self hc
      rw [List.dropWhile_cons_of_pos hc]
      exact (ih fun d hd => hs d (List.mem_cons_of_mem _ hd)).trans ⟨[' '], .of_mem hps, rfl⟩
    · rw [List.dropWhile_cons_of_neg hc]
      exact ⟨[], .nil ps, rfl⟩

def frontPieces : List (List Char) := [[' '], "const ".toList, "volatile ".toList]

def backPieces : List (List Char) := [[' '], ['&'], " const".toList, " volatile".toList]

theorem peelEnd_behind {r : List Char} (hr : ∀ c ∈ r, isBlank c → c = ' ') :
    Behind (backPieces.map List.reverse) (peelEnd r) r := by
  have hamp : MadeOf (backPieces.map List.reverse) ['&'] := .of_mem (by decide)
  refine (dropStart_behind (.of_mem (by decide)) _).trans ?_
  refine (dropStart_behind (.of_mem (by decide)) _).trans ?_
  refine (dropStart_behind hamp _).trans ?_
  refine (dropStart_behind (hamp.append hamp) _).trans ?_
  exact dropBlanks_behind (by decide) hr

theorem peel_split {s : List Char} (hs : ∀ c ∈ s, isBlank c → c = ' ') :
    ∃ v w, MadeOf frontPieces v ∧ MadeOf backPieces w ∧ s = v ++ peel s ++ w := by
  have hd : ∀ c ∈ (s.dropWhile isBlank).reverse, isBlank c → c = ' ' := fun c hc =>
    hs c ((List.dropWhile_suffix _).subset (List.mem_reverse.mp hc))
  obtain ⟨u, hu, e₁⟩ : Behind frontPieces (s.dropWhile isBlank) s :=
    dropBlanks_behind (by decide) hs
  obtain ⟨w, hw, e₂⟩ := peelEnd_behind hd
  obtain ⟨v, hv, e₃⟩ : Behind frontPieces (peel s)
      (peelEnd (s.dropWhile isBlank).reverse).reverse :=
    (dropStart_behind (.of_mem (by decide)) _).trans (dropStart_behind (.of_mem (by decide)) _)
  refine ⟨u ++ v, w.reverse, hu.append hv, hw.reverse, ?_⟩
  have e₄ : s.dropWhile isBlank = v ++ peel s ++ w.reverse := by
    rw [← e₃, ← List.reverse_append, ← e₂, List.reverse_reverse]
  rw [List.append_assoc u, List.append_assoc u, ← e₄, ← e₁]

/-- Peeling a text, round after round, only ever takes pieces off its ends. -/
theorem peelAll_split {s : List Char} (hs : ∀ c ∈ s, isBlank c → c = ' ') :
    ∃ v w, MadeOf frontPieces v ∧ MadeOf backPieces w ∧ s = v ++ peelAll s ++ w := by
  induction s using peelAll.induct with
  | case1 s h ih =>
    obtain ⟨v, w, hv, hw, e⟩ := peel_split hs
    have hp : ∀ c ∈ peel s, isBlank c → c = ' ' := fun c hc => hs c (by rw [e]; simp [hc])
    obtain ⟨v', w', hv', hw', e'⟩ := ih hp
    refine ⟨v ++ v', w' ++ w, hv.append hv', hw'.append hw, ?_⟩
    rw [peelAll, if_pos h]
    nth_rewrite 1 [e, e']
    simp only [List.append_assoc]
  | case2 s h =>
    rw [peelAll, if_neg h]
    exact ⟨[], [], .nil _, .nil _, by simp⟩

theorem not_length_peel_peelAll_lt (s : List Char) :
    ¬(peel (peelAll s)).length < (peelAll s).length := by
  induction s using peelAll.induct with
  | case1 s h ih => rwa [peelAll, if_pos h]
  | case2 s h => rwa [peelAll, if_neg h]

theorem peelAll_eq_self {s : List Char} (h : ¬(peel s).length < s.length) : peelAll s = s := by
  rw [peelAll, if_neg h]

theorem length_peel_le (s : List Char) : (peel s).length ≤ (trim s).length := by
  refine (length_dropStart_le _ _).trans ((length_dropStart_le _ _).trans ?_)
  rw [trim, dropEndsWhile, dropEndWhile, List.length_reverse, List.length_reverse, peelEnd]
  exact (length_dropStart_le _ _).trans ((length_dropStart_le _ _).trans
    ((length_dropStart_le _ _).trans (length_dropStart_le _ _)))

theorem getLast?_of_madeOf {ps : List (List Char)} {d : Char}
    (hps : ∀ p ∈ ps, p.getLast? = some d) {v : List Char} (h : MadeOf ps v) :
    ∀ c ∈ v.getLast?, c = d := by
  obtain ⟨xs, hxs, rfl⟩ := h
  induction xs with
  | nil => simp
  | cons x xs ih =>
    intro c hc
    rw [List.flatten_cons, List.getLast?_append, Option.mem_def, Option.or_eq_some_iff] at hc
    rcases hc with hc | ⟨-, hc⟩
    · exact ih (fun y hy => hxs y (List.mem_cons_of_mem _ hy)) c hc
    · rw [hps x (hxs x List.mem_cons_self)] at hc
      exact (Option.some.inj hc).symm

theorem isNormal_bareChars (s : List Char) : IsNormal (bareChars s) := by
  have hn := isNormal_normalChars s
  obtain ⟨v, w, hv, -, e⟩ := peelAll_split hn.spaced.blank
  have hstuck := not_length_peel_peelAll_lt (normalChars s)
  obtain ⟨hf, hl⟩ := ends_of_length_le_trim
    ((not_lt.mp hstuck).trans (length_peel_le (peelAll (normalChars s))))
  rw [e] at hn
  refine hn.infix (fun c hc => ?_) hf hl
  rw [getLast?_of_madeOf (d := ' ') (by decide) hv c hc]
  decide

theorem bareChars_bareChars (s : List Char) : bareChars (bareChars s) = bareChars s := by
  rw [bareChars, normalChars_eq_self (isNormal_bareChars s)]
  exact peelAll_eq_self (not_length_peel_peelAll_lt (normalChars s))

theorem bare_bare (s : String) : bare (bare s) = bare s := by
  rw [bare, bare, String.toList_ofList, bareChars_bareChars]

theorem bare_empty : bare "" = "" := by
  have hn : normalChars [] = [] := by
    change dropTags true [] = []
    rw [dropTags]
  change String.ofList (peelAll (normalChars [])) = ""
  rw [hn, peelAll_eq_self (Nat.not_lt_zero _)]

end TemplateCensus.Spelling
