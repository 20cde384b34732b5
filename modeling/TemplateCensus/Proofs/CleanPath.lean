import Mathlib.Data.List.Induction
import TemplateCensus.Proofs.Path

/-! The laws of clean paths. Cleaning a path twice is cleaning it once, and a file may be cleaned
before it is taken relative to a directory. Both come from one fact: to walk along the components of
a clean path leads to the same place as to walk along those of the path that was cleaned. -/

namespace TemplateCensus

namespace Text
variable {sep : Char} {s p : List Char}

theorem pieces_ne_nil (sep : Char) (s : List Char) : pieces sep s ≠ [] := by
  cases s with
  | nil => exact List.cons_ne_nil _ _
  | cons c s =>
    rw [pieces]
    split
    · exact List.cons_ne_nil _ _
    · cases pieces sep s <;> exact List.cons_ne_nil _ _

theorem consFirst_append (c : Char) {ps : List (List Char)} (h : ps ≠ []) (qs : List (List Char)) :
    consFirst c (ps ++ qs) = consFirst c ps ++ qs := by
  cases ps with
  | nil => exact absurd rfl h
  | cons p ps => rfl

theorem pieces_append (sep : Char) (s t : List Char) :
    pieces sep (s ++ sep :: t) = pieces sep s ++ pieces sep t := by
  induction s with
  | nil => simp [pieces]
  | cons c s ih =>
    rw [List.cons_append, pieces, pieces, ih]
    split
    · rfl
    · exact consFirst_append c (pieces_ne_nil sep s) _

theorem pieces_of_notMem (h : sep ∉ s) : pieces sep s = [s] := by
  induction s with
  | nil => rfl
  | cons c s ih =>
    have hc : c ≠ sep := (List.ne_of_not_mem_cons h).symm
    rw [pieces, if_neg hc, ih (List.not_mem_of_not_mem_cons h), consFirst]

theorem sep_notMem_of_mem_pieces (h : p ∈ pieces sep s) : sep ∉ p := by
  induction s generalizing p with
  | nil =>
    rw [List.mem_singleton.mp h]
    exact List.not_mem_nil
  | cons c s ih =>
    rw [pieces] at h
    split at h
    · rcases List.mem_cons.mp h with rfl | h
      · exact List.not_mem_nil
      · exact ih h
    · rename_i hc
      obtain ⟨q, qs, hq⟩ := List.exists_cons_of_ne_nil (pieces_ne_nil sep s)
      rw [hq] at ih h
      rcases List.mem_cons.mp h with rfl | h
      · exact List.not_mem_cons_of_ne_of_not_mem (Ne.symm hc) (ih List.mem_cons_self)
      · exact ih (List.mem_cons_of_mem q h)

end Text

namespace Path
variable {rooted cut : Bool} {dir file k p : String} {ks up walked : List String}

/-! ## Components -/

theorem components_append (p q : String) :
    components (p ++ "/" ++ q) = components p ++ components q := by
  have hlist : (p ++ "/" ++ q).toList = p.toList ++ '/' :: q.toList := by simp
  rw [components, hlist, Text.pieces_append, List.map_append]
  rfl

theorem components_of_notMem (h : '/' ∉ k.toList) : components k = [k] := by
  rw [components, Text.pieces_of_notMem h, List.map_singleton, String.ofList_toList]

theorem slash_notMem_of_mem_components (h : k ∈ components p) : '/' ∉ k.toList := by
  obtain ⟨q, hq, rfl⟩ := List.mem_map.mp h
  rw [String.toList_ofList]
  exact Text.sep_notMem_of_mem_pieces hq

theorem components_intercalate (hne : ks ≠ []) (h : ∀ k ∈ ks, '/' ∉ k.toList) :
    components ("/".intercalate ks) = ks := by
  induction ks with
  | nil => exact absurd rfl hne
  | cons k ks ih =>
    obtain ⟨hk, hks⟩ := List.forall_mem_cons.mp h
    cases ks with
    | nil => rw [String.intercalate_singleton, components_of_notMem hk]
    | cons l ks =>
      rw [String.intercalate_cons_cons, components_append, components_of_notMem hk,
        ih (List.cons_ne_nil l ks) hks, List.singleton_append]

/-! ## One component -/

theorem enter_blank (h : k = "" ∨ k = ".") : enter rooted up k = up := by
  unfold enter
  rw [if_pos]
  simpa using h

theorem enter_name (hempty : k ≠ "") (hpoint : k ≠ ".") (hup : k ≠ "..") :
    enter rooted up k = k :: up := by
  unfold enter
  rw [if_neg (by simp [hempty, hpoint]), if_neg hup]

theorem enter_above_name (h : k ≠ "..") : enter rooted (k :: up) ".." = up := by
  unfold enter
  rw [if_neg (by decide), if_pos rfl]
  split
  · contradiction
  · rename_i heq
    exact absurd (List.cons.inj heq).1 h
  · rename_i heq
    exact (List.cons.inj heq).2.symm

def Kept (ks : List String) : Prop := ∀ k ∈ ks, k ≠ "" ∧ k ≠ "."

theorem kept_nil : Kept [] := fun _ h => nomatch h

theorem Kept.enter (h : Kept up) (k : String) : Kept (enter rooted up k) := by
  intro l hl
  by_cases hk : k = "" ∨ k = "."
  · rw [enter_blank hk] at hl
    exact h l hl
  · rcases mem_enter hl with rfl | hl
    · exact not_or.mp hk
    · exact h l hl

theorem kept_foldl_enter (h : Kept up) (ks : List String) :
    Kept (ks.foldl (Path.enter rooted) up) := by
  induction ks generalizing up with
  | nil => exact h
  | cons k ks ih => exact ih (h.enter k)

theorem kept_cleanComponents (rooted : Bool) (ks : List String) :
    Kept (cleanComponents rooted ks) :=
  fun k hk => kept_foldl_enter kept_nil ks k (List.mem_reverse.mp hk)

/-! ## Walks -/

/-- One component more on a walk that was cleaned on its own is one component more on the whole
walk. Where the own walk cannot go up from its start, neither may the whole one. -/
theorem foldr_enter_enter (hcut : cut = true → enter rooted up ".." = up) (hwalked : Kept walked)
    (k : String) :
    (enter cut walked k).foldr (fun l u => enter rooted u l) up =
      enter rooted (walked.foldr (fun l u => enter rooted u l) up) k := by
  by_cases hblank : k = "" ∨ k = "."
  · rw [enter_blank hblank, enter_blank hblank]
  obtain ⟨hempty, hpoint⟩ := not_or.mp hblank
  by_cases hup : k = ".."
  · subst hup
    cases walked with
    | nil =>
      cases cut with
      | true => exact (hcut rfl).symm
      | false => rfl
    | cons l walked =>
      by_cases hl : l = ".."
      · subst hl
        rfl
      · -- the way up takes back the last name
        obtain ⟨hlempty, hlpoint⟩ := hwalked l List.mem_cons_self
        rw [enter_above_name hl, List.foldr_cons, enter_name hlempty hlpoint hl,
          enter_above_name hl]
  · rw [enter_name hempty hpoint hup, List.foldr_cons]

theorem foldl_enter_cleanComponents (hcut : cut = true → enter rooted up ".." = up)
    (ks : List String) :
    (cleanComponents cut ks).foldl (enter rooted) up = ks.foldl (enter rooted) up := by
  induction ks using List.reverseRecOn with
  | nil => rfl
  | append_singleton ks k ih =>
    rw [cleanComponents, List.foldl_reverse] at ih ⊢
    rw [List.foldl_append, List.foldl_append, ← ih]
    exact foldr_enter_enter hcut (kept_foldl_enter kept_nil ks) k

/-! ## Clean paths -/

theorem isAbsolute_append (h : dir ≠ "") (s : String) : isAbsolute (dir ++ s) = isAbsolute dir := by
  obtain ⟨c, cs, hcs⟩ := List.exists_cons_of_ne_nil (mt String.toList_eq_nil_iff.mp h)
  rw [isAbsolute, isAbsolute, String.toList_append, hcs, List.cons_append, List.head?_cons,
    List.head?_cons]

theorem isAbsolute_of_notMem (h : '/' ∉ p.toList) : isAbsolute p = false :=
  decide_eq_false fun hhead => h (List.mem_of_mem_head? hhead)

theorem isAbsolute_render (hkept : Kept ks) (hslash : ∀ k ∈ ks, '/' ∉ k.toList) :
    isAbsolute (render rooted ks) = rooted := by
  unfold render
  cases rooted with
  | true => exact isAbsolute_append (by decide) _
  | false =>
    cases ks with
    | nil => rfl
    | cons k ks =>
      have hk := isAbsolute_of_notMem (hslash k List.mem_cons_self)
      cases ks with
      | nil => simpa using hk
      | cons l ks =>
        simp only [Bool.false_eq_true, if_false, List.isEmpty_cons, String.intercalate_cons_cons]
        rw [String.append_assoc, isAbsolute_append (hkept k List.mem_cons_self).1, hk]

theorem foldl_enter_render (hslash : ∀ k ∈ ks, '/' ∉ k.toList) :
    (components (render cut ks)).foldl (enter rooted) up = ks.foldl (enter rooted) up := by
  have hroot : ∀ s : String, components ("/" ++ s) = "" :: components s := fun s => by
    rw [← String.empty_append (s := "/"), components_append]
    rfl
  unfold render
  cases ks with
  | nil => cases cut <;> rfl
  | cons k ks =>
    have hks := components_intercalate (List.cons_ne_nil k ks) hslash
    cases cut with
    | true =>
      rw [if_pos rfl, hroot, hks]
      rfl
    | false =>
      rw [if_neg Bool.false_ne_true, if_neg (by simp), hks]

theorem slash_notMem_of_mem_cleanComponents (h : k ∈ cleanComponents rooted (components p)) :
    '/' ∉ k.toList := slash_notMem_of_mem_components (mem_of_mem_cleanComponents h)

theorem isAbsolute_clean (p : String) : isAbsolute (clean p) = isAbsolute p :=
  isAbsolute_render (kept_cleanComponents _ _) fun _ => slash_notMem_of_mem_cleanComponents

theorem foldl_enter_clean (h : isAbsolute p = true → enter rooted up ".." = up) :
    (components (clean p)).foldl (enter rooted) up = (components p).foldl (enter rooted) up := by
  rw [clean, foldl_enter_render fun _ => slash_notMem_of_mem_cleanComponents,
    foldl_enter_cleanComponents h]

theorem clean_clean (p : String) : clean (clean p) = clean p := by
  have hwalk : (components (clean p)).foldl (enter (isAbsolute p)) [] =
      (components p).foldl (enter (isAbsolute p)) [] :=
    foldl_enter_clean fun h => h ▸ rfl
  rw [clean, isAbsolute_clean, cleanComponents, hwalk]
  rfl

/-! ## Paths relative to a directory -/

theorem clean_append (hdir : dir ≠ "") (file : String) :
    clean (dir ++ "/" ++ file) = render (isAbsolute dir) ((components file).foldl
      (enter (isAbsolute dir)) ((components dir).foldl (enter (isAbsolute dir)) [])).reverse := by
  have habs : isAbsolute (dir ++ "/" ++ file) = isAbsolute dir := by
    rw [String.append_assoc, isAbsolute_append hdir]
  rw [clean, habs, components_append, cleanComponents, List.foldl_append]

theorem join_eq_clean (hdir : dir ≠ "") (file : String) :
    join dir file = clean (dir ++ "/" ++ file) := by
  unfold join
  rw [if_neg hdir]
  split
  · rename_i hfile
    rw [clean_append hdir, hfile]
    rfl
  · rfl

theorem ne_empty_of_isAbsolute (h : isAbsolute dir = true) : dir ≠ "" := by
  rintro rfl
  cases h

theorem within_of_absolute (hfile : isAbsolute file = true) : within dir file = clean file := by
  rw [within, if_pos hfile]

theorem within_of_relative (hdir : dir ≠ "") (hfile : isAbsolute file = false) :
    within dir file = clean (dir ++ "/" ++ file) := by
  rw [within, hfile, if_neg Bool.false_ne_true, join_eq_clean hdir, clean_clean]

/-- A relative path may be cleaned before it is appended to a directory, however often it goes
up. -/
theorem clean_append_clean (hdir : dir ≠ "") (hfile : isAbsolute file = false) :
    clean (dir ++ "/" ++ clean file) = clean (dir ++ "/" ++ file) := by
  have hcut : isAbsolute file = true → ∀ rooted up, enter rooted up ".." = up :=
    fun h => absurd (hfile.symm.trans h) Bool.false_ne_true
  rw [clean_append hdir, clean_append hdir, foldl_enter_clean fun h => hcut h _ _]

theorem within_clean (hdir : dir ≠ "") (file : String) :
    within dir (clean file) = within dir file := by
  cases hfile : isAbsolute file with
  | true =>
    rw [within_of_absolute ((isAbsolute_clean file).trans hfile), within_of_absolute hfile,
      clean_clean]
  | false =>
    rw [within_of_relative hdir ((isAbsolute_clean file).trans hfile),
      within_of_relative hdir hfile, clean_append_clean hdir hfile]

theorem isAbsolute_within (hdir : isAbsolute dir = true) (file : String) :
    isAbsolute (within dir file) = true := by
  cases hfile : isAbsolute file with
  | true => rw [within_of_absolute hfile, isAbsolute_clean, hfile]
  | false =>
    have hne := ne_empty_of_isAbsolute hdir
    rw [within_of_relative hne hfile, isAbsolute_clean, String.append_assoc,
      isAbsolute_append hne, hdir]

theorem clean_within (dir file : String) : clean (within dir file) = within dir file :=
  clean_clean _

theorem within_within (hdir : isAbsolute dir = true) (file : String) :
    within dir (within dir file) = within dir file := by
  rw [within_of_absolute (isAbsolute_within hdir file), clean_within]

theorem clean_absolute (dir file : String) : clean (absolute dir file) = within dir file := by
  unfold absolute within
  split
  · exact clean_clean file
  · rfl

theorem absolute_eq_within (hdir : dir ≠ "") (file : String) :
    absolute dir file = within dir file := by
  rw [← clean_absolute]
  unfold absolute
  split
  · exact (clean_clean file).symm
  · rw [join_eq_clean hdir, clean_clean]

end Path

end TemplateCensus
