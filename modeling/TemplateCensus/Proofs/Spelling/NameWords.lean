import Mathlib.Data.List.Infix
import TemplateCensus.Proofs.Spelling.Arguments

/-! The names in a spelling. Normalizing moves blanks about and takes keywords out, so the words of
a text should come through it whole. For words of basic source characters they do. A name may hold
other characters too, and a keyword at the end of a name, behind one of these, is taken for a word
of its own. -/

namespace TemplateCensus.Spelling
open Text

/-! ## Runs -/

def runs (p : Char → Bool) (s : List Char) : List (List Char) :=
  (s.splitOnP (!p ·)).filter (!·.isEmpty)

section
variable {p q : Char → Bool} {c d : Char} {s t w : List Char}

theorem runs_nil : runs p [] = [] := by
  unfold runs
  rw [List.splitOnP_nil]
  rfl

theorem runs_append_cons (hd : ¬p d) (s t : List Char) :
    runs p (s ++ d :: t) = runs p s ++ runs p t := by
  unfold runs
  rw [List.splitOnP_append_cons s t (by simpa using hd), List.filter_append]

theorem runs_cons (hd : ¬p d) (t : List Char) : runs p (d :: t) = runs p t := by
  have h := runs_append_cons hd [] t
  rwa [runs_nil, List.nil_append, List.nil_append] at h

theorem runs_of_forall (hne : w ≠ []) (h : ∀ c ∈ w, p c) : runs p w = [w] := by
  unfold runs
  rw [List.splitOnP_eq_singleton fun c hc => by simpa using h c hc]
  simp [hne]

theorem runs_cons_cons (hc : p c) (hd : p d) (s : List Char) :
    ∃ w ws, runs p (d :: s) = w :: ws ∧ runs p (c :: d :: s) = (c :: w) :: ws := by
  obtain ⟨x, xs, hx⟩ := List.exists_cons_of_ne_nil (List.splitOnP_ne_nil (!p ·) s)
  have hds : (d :: s).splitOnP (!p ·) = (d :: x) :: xs := by
    rw [List.splitOnP_cons_eq_if_modifyHead, hx]
    simp [hd]
  have hcds : (c :: d :: s).splitOnP (!p ·) = (c :: d :: x) :: xs := by
    rw [List.splitOnP_cons_eq_if_modifyHead, hds]
    simp [hc]
  refine ⟨d :: x, xs.filter (!·.isEmpty), ?_, ?_⟩
  · unfold runs
    rw [hds]
    rfl
  · unfold runs
    rw [hcds]
    rfl

theorem words_eq_runs (s : List Char) : words s = runs (!isBlank ·) s := by
  induction s with
  | nil => rw [runs_nil, words]
  | cons c s ih =>
    by_cases hc : isBlank c
    · rw [words, if_pos hc, ih, runs_cons (by simpa using hc)]
    · cases s with
      | nil =>
        rw [runs_of_forall (List.cons_ne_nil c []) (by simpa using hc)]
        simp [words, hc]
      | cons d s =>
        by_cases hd : isBlank d
        · have hrest : words (d :: s) = words s := by rw [words, if_pos hd]
          have hone : words (c :: d :: s) = [c] :: words s := by
            rw [words, if_neg hc, hrest]
            simp [hd]
          have hsplit := runs_append_cons (p := (!isBlank ·)) (d := d) (by simpa using hd) [c] s
          rw [runs_of_forall (List.cons_ne_nil c []) (by simpa using hc)] at hsplit
          rw [runs_cons (by simpa using hd)] at ih
          rw [hone, ← hrest, ih]
          exact hsplit.symm
        · obtain ⟨w, ws, hw, hcw⟩ := words_cons_of_not_blank hc hd s
          obtain ⟨x, xs, hx, hcx⟩ := runs_cons_cons (p := (!isBlank ·)) (by simpa using hc)
            (by simpa using hd) s
          rw [hw, hx] at ih
          obtain ⟨rfl, rfl⟩ := List.cons_eq_cons.mp ih
          rw [hcw, hcx]

theorem runs_eq_flatMap (hpq : ∀ c, p c → q c) (s : List Char) :
    runs p s = (runs q s).flatMap (runs p) := by
  have hone : ∀ w : List Char, (∀ c ∈ w, q c) → runs p w = (runs q w).flatMap (runs p) := by
    intro w hw
    by_cases hne : w = []
    · rw [hne, runs_nil, runs_nil]
      rfl
    · rw [runs_of_forall hne hw, List.flatMap_singleton]
  -- `w` is the part of the current run that has been read
  have key : ∀ w : List Char, (∀ c ∈ w, q c) →
      runs p (w ++ s) = (runs q (w ++ s)).flatMap (runs p) := by
    induction s with
    | nil =>
      intro w hw
      rw [List.append_nil]
      exact hone w hw
    | cons c s ih =>
      intro w hw
      by_cases hc : q c
      · have hwc : ∀ d ∈ w ++ [c], q d := by
          intro d hd
          rcases List.mem_append.mp hd with hd | hd
          · exact hw d hd
          · rwa [List.mem_singleton.mp hd]
        rw [← List.singleton_append, ← List.append_assoc]
        exact ih (w ++ [c]) hwc
      · have hpc : ¬p c := fun h => hc (hpq c h)
        have hs := ih [] (by simp)
        rw [List.nil_append] at hs
        rw [runs_append_cons hpc, runs_append_cons hc, List.flatMap_append, ← hone w hw, ← hs]
  exact key [] (by simp)

end

/-! ## Blanks -/

/-- A choice of the characters that words are made of: those of basic source text at least, and
neither blanks nor angle brackets. -/
structure IsWordClass (p : Char → Bool) : Prop where
  identifier : ∀ c, isIdentifierChar c → p c
  blank : ∀ c, p c → ¬isBlank c
  angle : ¬p '<' ∧ ¬p '>'

theorem not_isBlank_of_isIdentifierChar {c : Char} (h : isIdentifierChar c) : ¬isBlank c := by
  intro hb
  delta isIdentifierChar Char.isAlphanum Char.isAlpha Char.isUpper Char.isLower Char.isDigit at h
  simp only [isBlank, Bool.or_eq_true, Bool.and_eq_true, decide_eq_true_eq, Char.ext_iff,
    Char.le_def, UInt32.le_iff_toNat_le, ← UInt32.toNat_inj, Char.reduceVal,
    UInt32.reduceToNat] at h hb
  omega

theorem isWordClass_isIdentifierChar : IsWordClass isIdentifierChar :=
  ⟨fun _ hc => hc, fun _ => not_isBlank_of_isIdentifierChar, by decide⟩

theorem isWordClass_isNameChar : IsWordClass isNameChar := by
  refine ⟨fun c hc => ?_, fun _ => not_isBlank_of_isNameChar, by decide⟩
  simp [isNameChar, hc, not_isBlank_of_isIdentifierChar hc]

namespace IsWordClass

variable {p : Char → Bool} (hp : IsWordClass p)
include hp

theorem space : ¬p ' ' := fun h => hp.blank ' ' h (by decide)

theorem runs_intercalate (ws : List (List Char)) :
    runs p ([' '].intercalate ws) = ws.flatMap (runs p) := by
  induction ws with
  | nil => rw [List.intercalate_nil, runs_nil, List.flatMap_nil]
  | cons w ws ih =>
    cases ws with
    | nil => rw [List.intercalate_singleton, List.flatMap_singleton]
    | cons v ws =>
      rw [List.intercalate_cons_cons, List.append_assoc, List.singleton_append,
        runs_append_cons hp.space, ih, ← List.flatMap_cons]

theorem runs_squeeze (s : List Char) : runs p (squeeze s) = runs p s := by
  have hsplit : runs p s = (runs (!isBlank ·) s).flatMap (runs p) := by
    apply runs_eq_flatMap
    intro c hc
    simpa using hp.blank c hc
  rw [squeeze, hp.runs_intercalate, words_eq_runs, ← hsplit]

theorem runs_append_tighten (w s : List Char) : runs p (w ++ tighten s) = runs p (w ++ s) := by
  induction s using tighten.induct generalizing w with
  | case1 => rfl
  | case2 cs ih =>
    have hcs := ih []
    rw [List.nil_append, List.nil_append] at hcs
    rw [tighten, runs_append_cons hp.angle.1, runs_append_cons hp.angle.1, runs_cons hp.space, hcs]
  | case3 cs ih =>
    have hcs := ih []
    rw [List.nil_append, List.nil_append] at hcs
    rw [tighten, runs_append_cons hp.angle.2, runs_append_cons hp.space, runs_cons hp.angle.2, hcs]
  | case4 c cs h1 h2 ih =>
    have hcs := ih (w ++ [c])
    rw [List.append_assoc, List.append_assoc] at hcs
    rw [tighten_cons h1 h2]
    exact hcs

theorem runs_spaced (s : List Char) : runs p (spaced s) = runs p s := by
  have htight := hp.runs_append_tighten [] (squeeze s)
  rw [List.nil_append, List.nil_append, hp.runs_squeeze] at htight
  exact htight

end IsWordClass

/-! ## Keywords -/

structure Thinned (ws vs : List (List Char)) : Prop where
  sublist : vs.Sublist ws
  others : vs.filter (· ∉ tagKeywords) = ws.filter (· ∉ tagKeywords)

namespace Thinned

theorem refl (ws : List (List Char)) : Thinned ws ws := ⟨.refl ws, rfl⟩

theorem append_left {ws vs : List (List Char)} (h : Thinned ws vs) (us : List (List Char)) :
    Thinned (us ++ ws) (us ++ vs) :=
  ⟨(List.Sublist.refl us).append h.sublist,
    by rw [List.filter_append, h.others, List.filter_append]⟩

theorem keyword {kw : List Char} (hkw : kw ∈ tagKeywords) {ws vs : List (List Char)}
    (h : Thinned ws vs) : Thinned (kw :: ws) vs :=
  ⟨h.sublist.cons kw, by rw [h.others, List.filter_cons_of_neg (by simpa using hkw)]⟩

end Thinned

/-- A keyword stands between a blank and a word character outside of basic source text. -/
def HidesKeyword (p : Char → Bool) (s : List Char) : Prop :=
  ∃ c, p c ∧ ¬isIdentifierChar c ∧ ∃ kw ∈ tagKeywords, c :: (kw ++ [' ']) <:+: s

theorem HidesKeyword.mono {p : Char → Bool} {s t : List Char} (h : HidesKeyword p s)
    (hst : s <:+: t) : HidesKeyword p t := by
  obtain ⟨c, hc, hid, kw, hkw, hin⟩ := h
  exact ⟨c, hc, hid, kw, hkw, hin.trans hst⟩

/-- What dropping keywords does to the words of a text, from the middle of a word `w` on. A word can
start here only if `w` is empty or ends in a character that hides a keyword. -/
theorem IsWordClass.thinned_append_dropTags {p : Char → Bool} (hp : IsWordClass p) {fresh : Bool}
    {w s : List Char} (hw : ∀ c ∈ w, p c)
    (hfresh : fresh → ∀ c ∈ w.getLast?, ¬isIdentifierChar c) (hs : ¬HidesKeyword p (w ++ s)) :
    Thinned (runs p (w ++ s)) (runs p (w ++ dropTags fresh s)) := by
  induction fresh, s using dropTags_induction generalizing w with
  | nil fresh =>
    rw [dropTags]
    exact .refl _
  | tag kw hkw rest hd ih =>
    obtain ⟨hne, hid⟩ := tagKeyword_chars kw hkw
    have hnil : w = [] := by
      rcases List.eq_nil_or_concat w with rfl | ⟨v, c, rfl⟩
      · rfl
      · refine absurd ⟨c, hw c (by simp), hfresh rfl c (by simp), kw, hkw, ?_⟩ hs
        exact ⟨v, rest, by simp⟩
    subst hnil
    have hrest : ¬HidesKeyword p ([] ++ rest) := by
      intro h
      exact hs (h.mono ⟨kw ++ [' '], [], by simp⟩)
    have hword : runs p (kw ++ ' ' :: rest) = kw :: runs p rest := by
      rw [runs_append_cons hp.space, runs_of_forall hne fun c hc => hp.identifier c (hid c hc)]
      rfl
    have hthin := ih (by simp) (by simp) hrest
    rw [List.nil_append, List.nil_append] at hthin ⊢
    rw [hd, hword]
    exact hthin.keyword hkw
  | keep fresh c cs hc hd ih =>
    rw [hd]
    by_cases hpc : p c
    · -- the word goes on
      have hnext : ∀ d ∈ w ++ [c], p d := by
        intro d hmem
        rcases List.mem_append.mp hmem with hmem | hmem
        · exact hw d hmem
        · rwa [List.mem_singleton.mp hmem]
      have hthin := ih hnext (by simp) (by simpa using hs)
      rwa [List.append_assoc, List.append_assoc] at hthin
    · have hcs : ¬HidesKeyword p ([] ++ cs) := by
        intro h
        exact hs (h.mono ⟨w ++ [c], [], by simp⟩)
      have hthin := ih (by simp) (by simp) hcs
      rw [runs_append_cons hpc, runs_append_cons hpc]
      exact hthin.append_left (runs p w)

theorem IsWordClass.thinned_normalChars {p : Char → Bool} (hp : IsWordClass p) {s : List Char}
    (hs : ¬HidesKeyword p (spaced s)) : Thinned (runs p s) (runs p (normalChars s)) := by
  have h : Thinned (runs p (spaced s)) (runs p (dropTags true (spaced s))) :=
    hp.thinned_append_dropTags (w := []) (by simp) (by simp) hs
  rw [hp.runs_spaced] at h
  exact h

theorem hidesKeyword_iff {p : Char → Bool} {s : List Char} : HidesKeyword p s ↔
    s.any fun c => p c && !isIdentifierChar c && decide (∃ kw ∈ tagKeywords,
      c :: (kw ++ [' ']) <:+: s) := by
  rw [List.any_eq_true]
  constructor
  · rintro ⟨c, hc, hid, kw, hkw, hin⟩
    have hdrop : ∃ kw ∈ tagKeywords, c :: (kw ++ [' ']) <:+: s := ⟨kw, hkw, hin⟩
    exact ⟨c, hin.subset List.mem_cons_self, by simp [hc, hid, hdrop]⟩
  · rintro ⟨c, -, h⟩
    exact ⟨c, by simpa [and_assoc] using h⟩

instance (p : Char → Bool) (s : List Char) : Decidable (HidesKeyword p s) :=
  decidable_of_iff _ hidesKeyword_iff.symm

theorem thinned_iff {ws vs : List (List Char)} : Thinned ws vs ↔
    vs.Sublist ws ∧ vs.filter (· ∉ tagKeywords) = ws.filter (· ∉ tagKeywords) :=
  ⟨fun h => ⟨h.sublist, h.others⟩, fun h => ⟨h.1, h.2⟩⟩

instance (ws vs : List (List Char)) : Decidable (Thinned ws vs) :=
  decidable_of_iff _ thinned_iff.symm

/-- The normal spelling has the words of the text, without some of the keywords. This holds of the
words of basic source text, and of names as well unless a keyword is hidden in one. -/
theorem words_of_normal (t : String) :
    Thinned (runs isIdentifierChar t.toList) (runs isIdentifierChar (normal t).toList) ∧
      (¬HidesKeyword isNameChar (spaced t.toList) →
        Thinned (runs isNameChar t.toList) (runs isNameChar (normal t).toList)) := by
  rw [normal, String.toList_ofList]
  constructor
  · apply isWordClass_isIdentifierChar.thinned_normalChars
    rintro ⟨c, hc, hid, -⟩
    exact hid hc
  · exact isWordClass_isNameChar.thinned_normalChars

theorem words_of_normal_names :
    ¬HidesKeyword isNameChar (spaced "struct Größe<class Maß , enum E >".toList) ∧
      normal "struct Größe<class Maß , enum E >" = "Größe<Maß , E>" ∧
      Thinned (runs isNameChar "struct Größe<class Maß , enum E >".toList)
        (runs isNameChar (normal "struct Größe<class Maß , enum E >").toList) := by
  have hfree : ¬HidesKeyword isNameChar (spaced "struct Größe<class Maß , enum E >".toList) := by
    decide +kernel
  exact ⟨hfree, by decide +kernel, (words_of_normal _).2 hfree⟩

theorem name_loses_keyword :
    normal "Box<変class &>" = "Box<変&>" ∧
      runs isNameChar "Box<変class &>".toList = ["Box".toList, "変class".toList] ∧
      runs isNameChar "Box<変&>".toList = ["Box".toList, "変".toList] ∧
      ¬Thinned (runs isNameChar "Box<変class &>".toList)
        (runs isNameChar (normal "Box<変class &>").toList) := by
  decide +kernel

end TemplateCensus.Spelling
