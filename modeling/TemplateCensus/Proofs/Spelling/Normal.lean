import Mathlib.Data.List.Chain
import Mathlib.Tactic.SplitIfs
import TemplateCensus.Spelling.Normal

/-! The shape of normal spellings, stated on its own: single blanks between words and none inside
angle brackets (`Spaced`), and no keyword at the start of a word (`Untagged`). Normalizing yields
this shape, keeps it, and changes nothing that has it. -/

namespace TemplateCensus.Spelling
open Text

def Apart (a b : Char) : Prop := ¬(isBlank a ∧ isBlank b)

def Fits (a b : Char) : Prop := Apart a b ∧ ¬(a = '<' ∧ b = ' ') ∧ ¬(a = ' ' ∧ b = '>')

/-- The only blanks are single spaces inside the text, and all neighbours are related by `R`. -/
structure Spaced (R : Char → Char → Prop) (s : List Char) : Prop where
  blank : ∀ c ∈ s, isBlank c → c = ' '
  chain : s.IsChain R
  first : ∀ c ∈ s.head?, ¬isBlank c
  last : ∀ c ∈ s.getLast?, ¬isBlank c

theorem Spaced.imp {R S : Char → Char → Prop} {s : List Char} (h : Spaced R s)
    (hRS : ∀ a b, R a b → S a b) : Spaced S s :=
  ⟨h.blank, h.chain.imp hRS, h.first, h.last⟩

theorem apart_of_left {a b : Char} (h : ¬isBlank a) : Apart a b := fun hab => h hab.1

theorem apart_of_right {a b : Char} (h : ¬isBlank b) : Apart a b := fun hab => h hab.2

theorem fits_of_right {a b : Char} (hb : ¬isBlank b) (hb' : b ≠ '>') : Fits a b :=
  ⟨apart_of_right hb, fun h => hb (by rw [h.2]; decide), fun h => hb' h.2⟩

/-! ## Words and the blanks between them -/

theorem mem_words {s w : List Char} (h : w ∈ words s) : w ≠ [] ∧ ∀ c ∈ w, ¬isBlank c := by
  induction s generalizing w with
  | nil => simp [words] at h
  | cons c cs ih =>
    rw [words] at h
    split_ifs at h with hc
    · exact ih h
    · split at h
      · next v vs _ hv =>
        rcases List.mem_cons.mp h with rfl | h
        · refine ⟨List.cons_ne_nil _ _, fun d hd => ?_⟩
          rcases List.mem_cons.mp hd with rfl | hd
          · exact hc
          · exact (ih (hv ▸ List.mem_cons_self)).2 d hd
        · exact ih (hv ▸ List.mem_cons_of_mem _ h)
      · rcases List.mem_cons.mp h with rfl | h
        · exact ⟨List.cons_ne_nil _ _, fun d hd => List.mem_singleton.mp hd ▸ hc⟩
        · exact ih h

theorem spaced_of_forall {w : List Char} (h : ∀ c ∈ w, ¬isBlank c) : Spaced Apart w where
  blank c hc hb := absurd hb (h c hc)
  chain := List.Pairwise.isChain
    (List.pairwise_of_forall_mem_list fun a ha _ _ => apart_of_left (h a ha))
  first c hc := h c (List.mem_of_mem_head? hc)
  last c hc := h c (List.mem_of_getLast? hc)

theorem Spaced.append {v t : List Char} (hv : ∀ c ∈ v, ¬isBlank c) (hv' : v ≠ [])
    (ht : Spaced Apart t) (ht' : t ≠ []) : Spaced Apart (v ++ ' ' :: t) where
  blank c hc hb := by
    rcases List.mem_append.mp hc with hc | hc
    · exact absurd hb (hv c hc)
    · rcases List.mem_cons.mp hc with rfl | hc
      · rfl
      · exact ht.blank c hc hb
  chain := by
    refine List.isChain_append.mpr ⟨(spaced_of_forall hv).chain, ?_, ?_⟩
    · exact List.isChain_cons.mpr ⟨fun c hc => apart_of_right (ht.first c hc), ht.chain⟩
    · exact fun c hc _ _ => apart_of_left ((spaced_of_forall hv).last c hc)
  first c hc := by
    rw [List.head?_append_of_ne_nil _ hv'] at hc
    exact (spaced_of_forall hv).first c hc
  last c hc := by
    rw [List.getLast?_append_of_ne_nil _ (List.cons_ne_nil _ _),
      List.getLast?_cons_of_ne_nil ht'] at hc
    exact ht.last c hc

theorem intercalate_ne_nil {w : List Char} (hw : w ≠ []) (ws : List (List Char)) :
    [' '].intercalate (w :: ws) ≠ [] := by
  cases ws with
  | nil => rwa [List.intercalate_singleton]
  | cons v vs =>
    rw [List.intercalate_cons_cons]
    simp [hw]

theorem spaced_intercalate {ws : List (List Char)}
    (h : ∀ w ∈ ws, w ≠ [] ∧ ∀ c ∈ w, ¬isBlank c) : Spaced Apart ([' '].intercalate ws) := by
  induction ws with
  | nil => exact spaced_of_forall (by simp [List.intercalate_nil])
  | cons w ws ih =>
    have hw := h w List.mem_cons_self
    cases ws with
    | nil =>
      rw [List.intercalate_singleton]
      exact spaced_of_forall hw.2
    | cons v vs =>
      have hv := h v (by simp)
      rw [List.intercalate_cons_cons, List.append_assoc, List.singleton_append]
      exact Spaced.append hw.2 hw.1 (ih fun u hu => h u (List.mem_cons_of_mem _ hu))
        (intercalate_ne_nil hv.1 vs)

theorem Spaced.suffix {R : Char → Char → Prop} {v t : List Char} (h : Spaced R (v ++ t))
    (ht : t ≠ []) (hf : ∀ c ∈ t.head?, ¬isBlank c) : Spaced R t where
  blank c hc := h.blank c (List.mem_append_right _ hc)
  chain := (List.isChain_append.mp h.chain).2.1
  first := hf
  last c hc := h.last c (by rwa [List.getLast?_append_of_ne_nil _ ht])

theorem words_cons_of_not_blank {c d : Char} (hc : ¬isBlank c) (hd : ¬isBlank d)
    (cs : List Char) :
    ∃ w ws, words (d :: cs) = w :: ws ∧ words (c :: d :: cs) = (c :: w) :: ws := by
  obtain ⟨w, ws, hw⟩ : ∃ w ws, words (d :: cs) = w :: ws := by
    rw [words, if_neg hd]
    split
    · exact ⟨_, _, rfl⟩
    · exact ⟨_, _, rfl⟩
  refine ⟨w, ws, hw, ?_⟩
  rw [words, if_neg hc, hw]
  simp [hd]

theorem words_cons_space {c : Char} {cs : List Char} (hc : ¬isBlank c) :
    words (c :: ' ' :: cs) = [c] :: words cs := by
  have hs : isBlank ' ' = true := by decide
  rw [words, if_neg hc, words, if_pos hs]
  simp [hs]

theorem intercalate_words : {s : List Char} → Spaced Apart s → [' '].intercalate (words s) = s
  | [], _ => rfl
  | [c], h => by
    have hc : ¬isBlank c := h.first c rfl
    simp [words, hc]
  | c :: d :: cs, h => by
    have hc : ¬isBlank c := h.first c rfl
    by_cases hd : isBlank d
    · obtain rfl : d = ' ' := h.blank d (by simp) hd
      -- the space is followed by a word, since the text does not end here
      cases cs with
      | nil => exact absurd hd (h.last ' ' rfl)
      | cons e cs =>
        have hcs := (List.isChain_cons_cons.mp h.chain).2
        have he : ¬isBlank e := fun he => (List.isChain_cons_cons.mp hcs).1 ⟨hd, he⟩
        have ht : Spaced Apart (e :: cs) :=
          Spaced.suffix (v := [c, ' ']) h (List.cons_ne_nil _ _) (by simpa using he)
        have hw : words (e :: cs) ≠ [] := by
          intro hnil
          simpa [hnil] using intercalate_words ht
        rw [words_cons_space hc, List.intercalate_cons_of_ne_nil hw, intercalate_words ht]
        rfl
    · obtain ⟨w, ws, hw, hcw⟩ := words_cons_of_not_blank hc hd cs
      have ht : Spaced Apart (d :: cs) :=
        Spaced.suffix (v := [c]) h (List.cons_ne_nil _ _) (by simpa using hd)
      have ih := intercalate_words ht
      rw [hw] at ih
      rw [hcw, List.intercalate_cons_cons_left, ih]

/-! ## Tight angle brackets -/

theorem head?_tighten {s : List Char} (h : s.head? ≠ some ' ') : (tighten s).head? = s.head? := by
  unfold tighten
  split <;> simp_all

theorem tighten_cons {c : Char} {cs : List Char} (h1 : ∀ ds, c = '<' → cs = ' ' :: ds → False)
    (h2 : ∀ ds, c = ' ' → cs = '>' :: ds → False) : tighten (c :: cs) = c :: tighten cs := by
  rw [tighten]
  · exact h1
  · exact h2

theorem tighten_eq_self {s : List Char} (h : s.IsChain Fits) : tighten s = s := by
  induction s using tighten.induct with
  | case1 => rfl
  | case2 cs ih => exact absurd ⟨rfl, rfl⟩ (List.isChain_cons_cons.mp h).1.2.1
  | case3 cs ih => exact absurd ⟨rfl, rfl⟩ (List.isChain_cons_cons.mp h).1.2.2
  | case4 c cs h1 h2 ih => rw [tighten_cons h1 h2, ih h.tail]

theorem tighten_sublist (s : List Char) : (tighten s).Sublist s := by
  induction s using tighten.induct with
  | case1 => exact .refl []
  | case2 cs ih => exact (ih.cons ' ').cons_cons '<'
  | case3 cs ih => exact (ih.cons_cons '>').cons ' '
  | case4 c cs h1 h2 ih =>
    rw [tighten_cons h1 h2]
    exact ih.cons_cons c

theorem isChain_cons_tighten {s : List Char} (p : Char) (hp : ∀ d ∈ s.head?, Fits p d)
    (h : s.IsChain Apart) : (p :: tighten s).IsChain Fits := by
  induction s using tighten.induct generalizing p with
  | case1 => exact List.isChain_singleton p
  | case2 cs ih =>
    rw [tighten]
    refine List.isChain_cons_cons.mpr ⟨hp '<' rfl, ih '<' ?_ h.tail.tail⟩
    intro d hd
    have hd' : ¬isBlank d := fun hb => (List.isChain_cons.mp h.tail).1 d hd ⟨by decide, hb⟩
    exact ⟨apart_of_right hd', fun hlt => hd' (by rw [hlt.2]; decide), by simp⟩
  | case3 cs ih =>
    have hp' : ¬isBlank p := fun hb => (hp ' ' rfl).1 ⟨hb, by decide⟩
    rw [tighten]
    refine List.isChain_cons_cons.mpr ⟨?_, ih '>' ?_ h.tail.tail⟩
    · exact ⟨apart_of_left hp', by simp, fun hs => hp' (by rw [hs.1]; decide)⟩
    · exact fun d _ => ⟨apart_of_left (by decide), by simp, by simp⟩
  | case4 c cs h1 h2 ih =>
    rw [tighten_cons h1 h2]
    refine List.isChain_cons_cons.mpr ⟨hp c rfl, ih c ?_ h.tail⟩
    intro d hd
    obtain ⟨ds, rfl⟩ := List.head?_eq_some_iff.mp hd
    refine ⟨(List.isChain_cons_cons.mp h).1, ?_, ?_⟩
    · rintro ⟨rfl, rfl⟩
      exact h1 ds rfl rfl
    · rintro ⟨rfl, rfl⟩
      exact h2 ds rfl rfl

theorem getLast?_tighten {s : List Char} (h : ∀ c ∈ s.getLast?, ¬isBlank c) :
    (tighten s).getLast? = s.getLast? := by
  induction s using tighten.induct with
  | case1 => rfl
  | case2 cs ih =>
    cases cs with
    | nil => exact absurd (by decide) (h ' ' rfl)
    | cons d ds =>
      have hd := ih fun c hc => h c (by simpa using hc)
      rw [tighten, List.getLast?_cons, hd]
      simp [List.getLast?_cons]
  | case3 cs ih =>
    have hd := ih fun c hc => h c (by rw [List.getLast?_cons_cons, List.getLast?_cons, hc]; rfl)
    rw [tighten, List.getLast?_cons, hd, List.getLast?_cons_cons, List.getLast?_cons]
  | case4 c cs h1 h2 ih =>
    have hd := ih fun d hd => h d (by rw [List.getLast?_cons, hd]; rfl)
    rw [tighten_cons h1 h2, List.getLast?_cons, hd, List.getLast?_cons]

theorem spaced_tighten {s : List Char} (h : Spaced Apart s) : Spaced Fits (tighten s) where
  blank c hc := h.blank c ((tighten_sublist s).subset hc)
  chain := by
    have hs := isChain_cons_tighten (s := s) '>' (fun d _ => ?_) h.chain
    · exact hs.tail
    · exact ⟨apart_of_left (by decide), by simp, by simp⟩
  first c hc := by
    have hs : s.head? ≠ some ' ' := fun hs => h.first ' ' hs (by decide)
    rw [head?_tighten hs] at hc
    exact h.first c hc
  last c hc := by
    rw [getLast?_tighten h.last] at hc
    exact h.last c hc

theorem spaced_spaced (s : List Char) : Spaced Fits (spaced s) :=
  spaced_tighten (spaced_intercalate fun _ => mem_words)

theorem spaced_eq_self {s : List Char} (h : Spaced Fits s) : spaced s = s := by
  rw [spaced, intercalate_words (h.imp fun _ _ hf => hf.1), tighten_eq_self h.chain]

/-! ## Keywords -/

def Untagged : (fresh : Bool) → List Char → Prop
  | _, [] => True
  | fresh, c :: cs => (fresh → afterTag? (c :: cs) = none) ∧ Untagged (!isIdentifierChar c) cs

theorem tagKeyword_chars : ∀ kw ∈ tagKeywords, kw ≠ [] ∧ ∀ c ∈ kw, isIdentifierChar c := by
  have hall : tagKeywords.all fun kw => !kw.isEmpty && kw.all isIdentifierChar := by decide
  intro kw hkw
  have h := List.all_eq_true.mp hall kw hkw
  rw [Bool.and_eq_true, List.all_eq_true] at h
  exact ⟨by simpa using h.1, h.2⟩

theorem afterTag?_eq_some {s r : List Char} (h : afterTag? s = some r) :
    ∃ kw ∈ tagKeywords, s = kw ++ ' ' :: r := by
  obtain ⟨kw, hkw, hr⟩ := List.exists_of_findSome?_eq_some h
  split_ifs at hr with hp
  obtain ⟨t, rfl⟩ := List.isPrefixOf_iff_prefix.mp hp
  refine ⟨kw, hkw, ?_⟩
  rw [← Option.some.inj hr]
  simp

theorem afterTag?_eq_none_iff {s : List Char} :
    afterTag? s = none ↔ ∀ kw ∈ tagKeywords, ¬(kw ++ [' ']) <+: s := by
  simp only [afterTag?, List.findSome?_eq_none_iff, ite_eq_right_iff, reduceCtorEq, imp_false,
    List.isPrefixOf_iff_prefix]

theorem dropTags_induction {P : Bool → List Char → Prop} (nil : ∀ fresh, P fresh [])
    (tag : ∀ kw ∈ tagKeywords, ∀ rest, dropTags true (kw ++ ' ' :: rest) = dropTags true rest →
      P true rest → P true (kw ++ ' ' :: rest))
    (keep : ∀ (fresh : Bool) c cs, (fresh = true → afterTag? (c :: cs) = none) →
      dropTags fresh (c :: cs) = c :: dropTags (!isIdentifierChar c) cs →
      P (!isIdentifierChar c) cs → P fresh (c :: cs))
    (fresh : Bool) (s : List Char) : P fresh s := by
  induction fresh, s using dropTags.induct with
  | case1 fresh => exact nil fresh
  | case2 fresh c cs rest h ih =>
    split_ifs at h with hf
    obtain ⟨kw, hkw, hs⟩ := afterTag?_eq_some h
    have hd : dropTags fresh (c :: cs) = dropTags true rest := by
      rw [dropTags]
      split <;> simp_all
    rw [hf, hs] at hd ⊢
    exact tag kw hkw rest hd ih
  | case3 fresh c cs h ih =>
    have hd : dropTags fresh (c :: cs) = c :: dropTags (!isIdentifierChar c) cs := by
      rw [dropTags]
      split <;> simp_all
    refine keep fresh c cs (fun hf => ?_) hd ih
    rwa [dif_pos hf] at h

theorem prefix_of_prefix_dropTags {w : List Char} (hw : ∀ c ∈ w, isIdentifierChar c) {x : Char}
    {s : List Char} (h : w ++ [x] <+: dropTags false s) : w ++ [x] <+: s := by
  generalize hf : false = fresh at h
  induction fresh, s using dropTags_induction generalizing w with
  | nil fresh => rwa [dropTags] at h
  | tag kw _ rest hd ih => exact absurd hf (by decide)
  | keep fresh c cs hc hd ih =>
    rw [hd] at h
    cases w with
    | nil => simpa using h
    | cons a w =>
      obtain ⟨rfl, h'⟩ := List.cons_prefix_cons.mp h
      have ha : false = !isIdentifierChar a := by simp [hw a]
      have hw' : ∀ d ∈ w, isIdentifierChar d := fun d hd => hw d (List.mem_cons_of_mem _ hd)
      exact List.cons_prefix_cons.mpr ⟨rfl, ih hw' ha h'⟩

theorem untagged_dropTags (fresh : Bool) (s : List Char) : Untagged fresh (dropTags fresh s) := by
  induction fresh, s using dropTags_induction with
  | nil fresh =>
    rw [dropTags]
    trivial
  | tag kw _ rest hd ih => rwa [hd]
  | keep fresh c cs hc hd ih =>
    rw [hd]
    refine ⟨fun hf => afterTag?_eq_none_iff.mpr fun kw hkw hp => ?_, ih⟩
    -- a keyword here would have stood here before
    obtain ⟨hne, hid⟩ := tagKeyword_chars kw hkw
    obtain ⟨a, w, rfl⟩ := List.exists_cons_of_ne_nil hne
    obtain ⟨rfl, hp⟩ := List.cons_prefix_cons.mp hp
    have ha : (!isIdentifierChar a) = false := by simp [hid a]
    rw [ha] at hp
    have hp' := prefix_of_prefix_dropTags (fun d hd => hid d (List.mem_cons_of_mem _ hd)) hp
    exact afterTag?_eq_none_iff.mp (hc hf) _ hkw (List.cons_prefix_cons.mpr ⟨rfl, hp'⟩)

theorem dropTags_eq_self {fresh : Bool} {s : List Char} (h : Untagged fresh s) :
    dropTags fresh s = s := by
  induction s generalizing fresh with
  | nil => rw [dropTags]
  | cons c cs ih =>
    obtain ⟨hc, hcs⟩ := h
    rw [dropTags]
    split
    · next rest hr =>
      split_ifs at hr with hf
      simp [hc hf] at hr
    · rw [ih hcs]

theorem Untagged.left {fresh : Bool} {s t : List Char} (h : Untagged fresh (s ++ t)) :
    Untagged fresh s := by
  induction s generalizing fresh with
  | nil => trivial
  | cons c cs ih =>
    refine ⟨fun hf => afterTag?_eq_none_iff.mpr fun kw hkw hp => ?_, ih h.2⟩
    exact afterTag?_eq_none_iff.mp (h.1 hf) kw hkw (hp.trans (List.prefix_append (c :: cs) t))

theorem Untagged.right {fresh : Bool} {s t : List Char} (h : Untagged fresh (s ++ t))
    (hs : s ≠ []) (hl : ∀ c ∈ s.getLast?, ¬isIdentifierChar c) : Untagged true t := by
  induction s generalizing fresh with
  | nil => exact absurd rfl hs
  | cons c cs ih =>
    cases cs with
    | nil =>
      have hc : (!isIdentifierChar c) = true := by simpa using hl c rfl
      rw [← hc]
      exact h.2
    | cons d ds =>
      rw [List.getLast?_cons_cons] at hl
      exact ih h.2 (List.cons_ne_nil _ _) hl

theorem dropTags_sublist (fresh : Bool) (s : List Char) : (dropTags fresh s).Sublist s := by
  induction fresh, s using dropTags_induction with
  | nil fresh => rw [dropTags]
  | tag kw _ rest hd ih =>
    rw [hd]
    exact (ih.cons ' ').trans (List.sublist_append_right _ _)
  | keep fresh c cs _ hd ih =>
    rw [hd]
    exact ih.cons_cons c

theorem getLast?_dropTags {fresh : Bool} {s : List Char} (h : ∀ c ∈ s.getLast?, ¬isBlank c) :
    (dropTags fresh s).getLast? = s.getLast? := by
  induction fresh, s using dropTags_induction with
  | nil fresh => rw [dropTags]
  | tag kw _ rest hd ih =>
    rw [List.getLast?_append_of_ne_nil _ (List.cons_ne_nil _ _)] at h ⊢
    cases rest with
    | nil => exact absurd (by decide) (h ' ' rfl)
    | cons d ds =>
      rw [List.getLast?_cons_cons] at h ⊢
      rw [hd, ih h]
  | keep fresh c cs _ hd ih =>
    have ht := ih fun d hd => h d (by rw [List.getLast?_cons, hd]; rfl)
    rw [hd, List.getLast?_cons, ht, List.getLast?_cons]

/-- Dropping keywords behind a character `p` that fits what follows it leaves everything fitting:
what stands behind a keyword and its blank is neither blank nor a closing bracket. -/
theorem isChain_cons_dropTags (fresh : Bool) {s : List Char} {p : Char}
    (h : (p :: s).IsChain Fits) (hl : ∀ c ∈ s.getLast?, ¬isBlank c) :
    (p :: dropTags fresh s).IsChain Fits := by
  induction fresh, s using dropTags_induction generalizing p with
  | nil fresh => rwa [dropTags]
  | tag kw _ rest hd ih =>
    rw [List.getLast?_append_of_ne_nil _ (List.cons_ne_nil _ _)] at hl
    have hrest : (' ' :: rest).IsChain Fits := (List.isChain_append.mp h.tail).2.1
    rw [hd]
    cases rest with
    | nil => exact absurd (by decide) (hl ' ' rfl)
    | cons d ds =>
      obtain ⟨hs, hds⟩ := List.isChain_cons_cons.mp hrest
      have hb : ¬isBlank d := fun hb => hs.1 ⟨by decide, hb⟩
      have hpd : Fits p d := fits_of_right hb fun hgt => hs.2.2 ⟨rfl, hgt⟩
      rw [List.getLast?_cons_cons] at hl
      exact ih (List.isChain_cons_cons.mpr ⟨hpd, hds⟩) hl
  | keep fresh c cs _ hd ih =>
    obtain ⟨hpc, hcs⟩ := List.isChain_cons_cons.mp h
    rw [hd]
    refine List.isChain_cons_cons.mpr ⟨hpc, ih hcs fun d hd => hl d ?_⟩
    rw [List.getLast?_cons, hd]
    rfl

theorem spaced_dropTags {fresh : Bool} {s : List Char} (h : Spaced Fits s) :
    Spaced Fits (dropTags fresh s) := by
  -- a tab in front fits exactly the characters that are not blank
  have hs : ('\t' :: s).IsChain Fits := by
    refine List.isChain_cons.mpr ⟨fun c hc => ?_, h.chain⟩
    exact ⟨apart_of_right (h.first c hc), by simp, by simp⟩
  have hd := isChain_cons_dropTags fresh hs h.last
  refine ⟨fun c hc => h.blank c ((dropTags_sublist fresh s).subset hc), hd.tail, ?_, ?_⟩
  · exact fun c hc hb => ((List.isChain_cons.mp hd).1 c hc).1 ⟨by decide, hb⟩
  · rw [getLast?_dropTags h.last]
    exact h.last

/-! ## Normal spellings -/

structure IsNormal (s : List Char) : Prop where
  spaced : Spaced Fits s
  untagged : Untagged true s

theorem isNormal_normalChars (s : List Char) : IsNormal (normalChars s) :=
  ⟨spaced_dropTags (spaced_spaced s), untagged_dropTags true _⟩

theorem normalChars_eq_self {s : List Char} (h : IsNormal s) : normalChars s = s := by
  rw [normalChars, spaced_eq_self h.spaced, dropTags_eq_self h.untagged]

theorem IsNormal.infix {v u w : List Char} (h : IsNormal (v ++ u ++ w))
    (hv : ∀ c ∈ v.getLast?, ¬isIdentifierChar c) (hf : ∀ c ∈ u.head?, ¬isBlank c)
    (hl : ∀ c ∈ u.getLast?, ¬isBlank c) : IsNormal u := by
  constructor
  · refine ⟨fun c hc => h.spaced.blank c (by simp [hc]), ?_, hf, hl⟩
    exact (List.isChain_append.mp (List.isChain_append.mp h.spaced.chain).1).2.1
  · have hvu : Untagged true (v ++ u) := h.untagged.left
    by_cases hnil : v = []
    · rwa [hnil, List.nil_append] at hvu
    · exact hvu.right hnil hv

end TemplateCensus.Spelling
