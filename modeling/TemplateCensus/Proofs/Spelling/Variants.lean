import TemplateCensus.Proofs.Spelling.Qualifiers

/-! Spellings of one type. Qualifiers, keywords and references can stand around a type in any order
and number, and the bare spelling is the same. Two things carry this: a word put beside a text is a
word of its own in the normal spelling, and the pieces around a bare spelling come off in one way
only. -/

namespace TemplateCensus.Spelling
open Text

/-! ## Pieces come off in one way -/

section
variable {ps : List (List Char)} {v w x y : List Char}

/-- No piece is the start of another one, so two ways to begin a text with pieces agree as far as
both go. -/
theorem MadeOf.exists_append (hps : ∀ a ∈ ps, ∀ b ∈ ps, a <+: b → a = b) (hv : MadeOf ps v)
    (hw : MadeOf ps w) (h : v ++ x = w ++ y) (hx : ∀ a ∈ ps, ¬a <+: x) :
    ∃ r, MadeOf ps r ∧ v = w ++ r := by
  obtain ⟨bs, hbs, rfl⟩ := hw
  induction bs generalizing v with
  | nil => exact ⟨v, hv, rfl⟩
  | cons b bs ih =>
    have hb : b ∈ ps := hbs b List.mem_cons_self
    obtain ⟨as, has, rfl⟩ := hv
    rw [List.flatten_cons, List.append_assoc] at h
    cases as with
    | nil => exact absurd ⟨bs.flatten ++ y, h.symm⟩ (hx b hb)
    | cons a as =>
      have ha : a ∈ ps := has a List.mem_cons_self
      rw [List.flatten_cons, List.append_assoc] at h
      have hpa : a <+: b ++ (bs.flatten ++ y) := ⟨as.flatten ++ x, h⟩
      have hpb : b <+: b ++ (bs.flatten ++ y) := List.prefix_append _ _
      have hab : a = b := by
        rcases List.prefix_or_prefix_of_prefix hpa hpb with hp | hp
        · exact hps a ha b hb hp
        · exact (hps b hb a ha hp).symm
      subst hab
      have hrest : MadeOf ps as.flatten := ⟨as, fun z hz => has z (List.mem_cons_of_mem a hz), rfl⟩
      obtain ⟨r, hr, he⟩ := ih hrest (fun z hz => hbs z (List.mem_cons_of_mem a hz))
        (List.append_cancel_left h)
      exact ⟨r, hr, by rw [List.flatten_cons, List.flatten_cons, he, List.append_assoc]⟩

theorem MadeOf.head?_mem {heads : List Char}
    (hps : ∀ a ∈ ps, a ≠ [] ∧ a.head?.all (· ∈ heads)) (hv : MadeOf ps v) :
    ∀ c ∈ v.head?, c ∈ heads := by
  obtain ⟨as, has, rfl⟩ := hv
  intro c hc
  cases as with
  | nil => cases hc
  | cons a as =>
    obtain ⟨hne, hhead⟩ := hps a (has a List.mem_cons_self)
    obtain ⟨d, a, rfl⟩ := List.exists_cons_of_ne_nil hne
    obtain rfl : d = c := Option.some.inj hc
    simpa using hhead

theorem MadeOf.map_reverse (h : MadeOf ps v) : MadeOf (ps.map List.reverse) v.reverse := by
  have hps : (ps.map List.reverse).map List.reverse = ps := by simp
  rw [← hps] at h
  exact h.reverse

theorem MadeOf.eq_nil (h : MadeOf ps v) (hv : ∀ a ∈ ps, ¬a <+: v) : v = [] := by
  obtain ⟨as, has, rfl⟩ := h
  cases as with
  | nil => rfl
  | cons a as => exact absurd (List.prefix_append a as.flatten) (hv a (has a List.mem_cons_self))

theorem not_prefix_append {a heads : List Char} {cuts : List (List Char)} (hv : ¬a <+: v)
    (hx : ∀ c ∈ x.head?, c ∈ heads)
    (hcut : ∀ n < a.length, (a.drop n).head?.all (· ∈ heads) → a.take n ∈ cuts) (hcuts : v ∉ cuts) :
    ¬a <+: v ++ x := by
  intro hp
  rcases List.prefix_or_prefix_of_prefix hp (List.prefix_append v x) with hav | ⟨z, rfl⟩
  · exact hv hav
  · have hz : z ≠ [] := by
      rintro rfl
      exact hv (by simp)
    have hzx : z <+: x := (List.prefix_append_right_inj v).mp hp
    obtain ⟨c, z, rfl⟩ := List.exists_cons_of_ne_nil hz
    obtain ⟨r, rfl⟩ := hzx
    have hc : c ∈ heads := hx c rfl
    have hmem := hcut v.length (by simp) (by simpa using hc)
    rw [List.take_left] at hmem
    exact hcuts hmem

end

def qualifierWords : List (List Char) := ["const".toList, "volatile".toList]

section
variable {p p' q q' u u' : List Char}

theorem IsBare.not_prefix_append (hu : IsBare u) (hword : u ∉ qualifierWords)
    (hq : MadeOf backPieces q) : ∀ a ∈ qualifiers, ¬a <+: u ++ q := by
  have hcut : ∀ a ∈ qualifiers, ∀ n < a.length, (a.drop n).head?.all (· ∈ [' ', '&']) →
      a.take n ∈ qualifierWords := by decide
  have hhead : ∀ c ∈ q.head?, c ∈ [' ', '&'] := hq.head?_mem (by decide)
  intro a ha
  exact Spelling.not_prefix_append (hu.front a ha) hhead (hcut a ha) hword

theorem IsBare.not_prefix_reverse_append (hu : IsBare u) (hne : u ≠ []) (hword : u ∉ qualifierWords)
    (hp : MadeOf qualifiers p) :
    ∀ a ∈ backPieces.map List.reverse, ¬a <+: u.reverse ++ p.reverse := by
  have hcut : ∀ a ∈ backPieces.map List.reverse, ∀ n < a.length,
      (a.drop n).head?.all (· ∈ [' ']) → a.take n ∈ ([] :: qualifierWords).map List.reverse := by
    decide
  have hhead : ∀ c ∈ p.reverse.head?, c ∈ [' '] := hp.map_reverse.head?_mem (by decide)
  have hrev : u.reverse ∉ ([] :: qualifierWords).map List.reverse := by
    rw [List.mem_map_of_injective List.reverse_injective, List.mem_cons, not_or]
    exact ⟨hne, hword⟩
  intro a ha
  obtain ⟨w, hw, rfl⟩ := List.mem_map.mp ha
  have hfree : ¬w.reverse <+: u.reverse := fun h => hu.back w hw (List.reverse_prefix.mp h)
  exact Spelling.not_prefix_append hfree hhead (hcut _ ha) hrev

theorem IsBare.eq_of_around (hu : IsBare u) (hu' : IsBare u') (hne : u ≠ [])
    (hword : u ∉ qualifierWords) (hp : MadeOf qualifiers p) (hp' : MadeOf qualifiers p')
    (hq : MadeOf backPieces q) (hq' : MadeOf backPieces q')
    (h : p ++ (u ++ q) = p' ++ (u' ++ q')) : u' = u := by
  have hback := hu.not_prefix_reverse_append hne hword hp
  have hrev : q.reverse ++ (u.reverse ++ p.reverse) =
      q'.reverse ++ (u'.reverse ++ p'.reverse) := by
    have hflip := congrArg List.reverse h
    simpa using hflip
  obtain ⟨r, hr, hpr⟩ := hp.exists_append (by decide) hp' h (hu.not_prefix_append hword hq)
  obtain ⟨z, hz, hqz⟩ := hq.map_reverse.exists_append (by decide) hq'.map_reverse hrev hback
  have hq_eq : q = z.reverse ++ q' := by
    have hflip := congrArg List.reverse hqz
    simpa using hflip
  have hmid : u' = r ++ u ++ z.reverse := by
    rw [hpr, hq_eq, List.append_assoc] at h
    have hcancel := List.append_cancel_left h
    rw [← List.append_assoc, ← List.append_assoc] at hcancel
    exact (List.append_cancel_right hcancel).symm
  -- pieces left over would be pieces of the other bare text
  have hrnil : r = [] := by
    apply hr.eq_nil
    intro a ha hpre
    refine hu'.front a ha (hpre.trans ⟨u ++ z.reverse, ?_⟩)
    rw [hmid, List.append_assoc]
  have hznil : z = [] := by
    apply hz.eq_nil
    intro a ha hpre
    obtain ⟨w, hw, rfl⟩ := List.mem_map.mp ha
    have hsuffix : w <:+ z.reverse := by
      rw [← List.reverse_prefix, List.reverse_reverse]
      exact hpre
    exact hu'.back w hw (hsuffix.trans ⟨r ++ u, hmid.symm⟩)
  rw [hmid, hrnil, hznil, List.nil_append, List.reverse_nil, List.append_nil]

end

/-! ## The last word of a text -/

def EndsInKeyword (s : List Char) : Prop := s.rtakeWhile isIdentifierChar ∈ tagKeywords

instance (s : List Char) : Decidable (EndsInKeyword s) :=
  inferInstanceAs (Decidable (_ ∈ tagKeywords))

theorem getLast?_rdropWhile_not (p : Char → Bool) (s : List Char) :
    ∀ c ∈ (s.rdropWhile p).getLast?, ¬p c := by
  rw [List.rdropWhile, List.getLast?_reverse]
  exact head?_dropWhile_not _

theorem endsInKeyword_iff {s : List Char} : EndsInKeyword s ↔
    ∃ x, ∃ kw ∈ tagKeywords, s = x ++ kw ∧ ∀ c ∈ x.getLast?, ¬isIdentifierChar c := by
  constructor
  · intro h
    refine ⟨s.rdropWhile isIdentifierChar, _, h, ?_, getLast?_rdropWhile_not _ s⟩
    exact (List.rdropWhile_append_rtakeWhile ..).symm
  · rintro ⟨x, kw, hkw, rfl, hx⟩
    have hid := (tagKeyword_chars kw hkw).2
    have hstop : x.reverse.takeWhile isIdentifierChar = [] := by
      rw [← List.head?_reverse] at hx
      cases hrev : x.reverse with
      | nil => rfl
      | cons c cs =>
        rw [hrev] at hx
        exact List.takeWhile_cons_of_neg (hx c rfl)
    have hlast : (x ++ kw).rtakeWhile isIdentifierChar = kw := by
      rw [List.rtakeWhile, List.reverse_append,
        List.takeWhile_append_of_pos fun c hc => hid c (List.mem_reverse.mp hc), hstop,
        List.append_nil, List.reverse_reverse]
    rw [EndsInKeyword, hlast]
    exact hkw

theorem runs_append_of_last {p : Char → Bool} {x w : List Char} (hx : ∀ c ∈ x.getLast?, ¬p c)
    (hne : w ≠ []) (hw : ∀ c ∈ w, p c) : runs p (x ++ w) = runs p x ++ [w] := by
  rcases List.eq_nil_or_concat' x with rfl | ⟨y, c, rfl⟩
  · rw [List.nil_append, runs_nil, runs_of_forall hne hw, List.nil_append]
  · have hc : ¬p c := hx c (by simp)
    rw [List.append_assoc, List.singleton_append, runs_append_cons hc, runs_append_cons hc,
      runs_nil, List.append_nil, runs_of_forall hne hw]

theorem getLast?_squeeze {s : List Char} (hs : ∀ c ∈ s.getLast?, ¬isBlank c) :
    (squeeze s).getLast? = s.getLast? := by
  induction s with
  | nil => rfl
  | cons c s ih =>
    cases s with
    | nil =>
      rw [squeeze_cons (hs c rfl) (by simp)]
      rfl
    | cons d s =>
      obtain ⟨e, he⟩ : ∃ e, (d :: s).getLast? = some e :=
        ⟨_, List.getLast?_eq_some_getLast (List.cons_ne_nil d s)⟩
      rw [List.getLast?_cons_cons] at hs ⊢
      have ih := ih hs
      rw [he] at ih ⊢
      by_cases hc : isBlank c
      · rw [squeeze_cons_blank hc, ih]
      · by_cases hd : isBlank d
        · have hne : ¬isBlank e := hs e he
          have hmem : e ∈ s := by
            rcases List.mem_cons.mp (List.mem_of_getLast? he) with rfl | hmem
            · exact absurd hd hne
            · exact hmem
          rw [squeeze_cons_blank hd] at ih
          rw [squeeze_cons_cons hc hd (words_ne_nil hmem hne), List.getLast?_cons_cons,
            List.getLast?_cons, ih]
          rfl
        · rw [squeeze_cons hc (by simpa using hd), List.getLast?_cons, ih]
          rfl

theorem endsInKeyword_of_spaced {s : List Char} (hs : ∀ c ∈ s.getLast?, ¬isBlank c)
    (h : EndsInKeyword (spaced s)) : EndsInKeyword s := by
  obtain ⟨x, kw, hkw, hx, hfresh⟩ := endsInKeyword_iff.mp h
  obtain ⟨hne, hid⟩ := tagKeyword_chars kw hkw
  have hend : s.getLast? = kw.getLast? := by
    have hlast : (spaced s).getLast? = kw.getLast? := by
      rw [hx, List.getLast?_append_of_ne_nil _ hne]
    rw [← getLast?_squeeze hs, ← getLast?_tighten (spaced_squeeze s).last]
    exact hlast
  -- the keyword is the last run of the spaced text, and both texts have the same runs
  have hnil : s.rtakeWhile isIdentifierChar ≠ [] := by
    intro hnil
    rw [List.getLast?_eq_some_getLast hne] at hend
    obtain ⟨y, rfl⟩ := List.getLast?_eq_some_iff.mp hend
    rw [List.rtakeWhile_concat_pos _ _ _ (hid _ (List.getLast_mem hne))] at hnil
    simp at hnil
  have hrest := getLast?_rdropWhile_not isIdentifierChar s
  have hruns : runs isIdentifierChar x ++ [kw] =
      runs isIdentifierChar (s.rdropWhile isIdentifierChar) ++ [s.rtakeWhile isIdentifierChar] := by
    rw [← runs_append_of_last hfresh hne hid, ← hx, isWordClass_isIdentifierChar.runs_spaced,
      ← runs_append_of_last hrest hnil fun c hc => List.mem_rtakeWhile_imp hc,
      List.rdropWhile_append_rtakeWhile]
  have hword := List.append_inj_right' hruns rfl
  rw [EndsInKeyword, ← List.singleton_inj.mp hword]
  exact hkw

/-! ## Texts side by side -/

theorem words_append_cons {b : Char} (hb : isBlank b) (s t : List Char) :
    words (s ++ b :: t) = words s ++ words t := by
  rw [words_eq_runs, words_eq_runs, words_eq_runs, runs_append_cons (by simpa using hb)]

theorem words_trim (s : List Char) : words (trim s) = words s := by
  have hfront : ∀ s : List Char, words (s.dropWhile isBlank) = words s := by
    intro s
    induction s with
    | nil => rfl
    | cons c s ih =>
      by_cases hc : isBlank c
      · rw [List.dropWhile_cons_of_pos hc, ih, words, if_pos hc]
      · rw [List.dropWhile_cons_of_neg hc]
  have hback : ∀ r : List Char, words (r.dropWhile isBlank).reverse = words r.reverse := by
    intro r
    induction r with
    | nil => rfl
    | cons c r ih =>
      by_cases hc : isBlank c
      · have hnil : words [] = [] := by rw [words]
        rw [List.dropWhile_cons_of_pos hc, ih, List.reverse_cons, words_append_cons hc, hnil,
          List.append_nil]
      · rw [List.dropWhile_cons_of_neg hc]
  rw [trim, dropEndsWhile, dropEndWhile, hback, List.reverse_reverse, hfront]

theorem intercalate_append {ws vs : List (List Char)} (hws : ws ≠ []) (hvs : vs ≠ []) :
    [' '].intercalate (ws ++ vs) = [' '].intercalate ws ++ ' ' :: [' '].intercalate vs := by
  induction ws with
  | nil => exact absurd rfl hws
  | cons w ws ih =>
    have hrest : ws ++ vs ≠ [] := by simp [hvs]
    rw [List.cons_append, List.intercalate_cons_of_ne_nil hrest]
    cases ws with
    | nil =>
      rw [List.nil_append, List.intercalate_singleton]
      simp
    | cons v ws =>
      rw [ih (List.cons_ne_nil v ws), List.intercalate_cons_cons]
      simp

theorem squeeze_append_cons {b : Char} (hb : isBlank b) {s t : List Char} (hs : words s ≠ [])
    (ht : words t ≠ []) : squeeze (s ++ b :: t) = squeeze s ++ ' ' :: squeeze t := by
  rw [squeeze, words_append_cons hb, intercalate_append hs ht, squeeze, squeeze]

theorem tighten_append_cons {s t : List Char} (hs : s.getLast? ≠ some '<')
    (ht : t.head? ≠ some '>') : tighten (s ++ ' ' :: t) = tighten s ++ ' ' :: tighten t := by
  have hspace : tighten (' ' :: t) = ' ' :: tighten t := by
    apply tighten_cons
    · simp
    · rintro ds - rfl
      exact ht rfl
  rw [tighten_append, hspace]
  intro a ha b hb
  obtain rfl : ' ' = b := Option.some.inj hb
  constructor
  · rintro ⟨rfl, -⟩
    exact hs ha
  · simp

/-! ## Keywords beside a blank -/

def freshBehind (fresh : Bool) (x : List Char) : Bool :=
  x.foldl (fun _ c => !isIdentifierChar c) fresh

theorem freshBehind_eq_true_iff {x : List Char} :
    freshBehind true x ↔ ∀ c ∈ x.getLast?, ¬isIdentifierChar c := by
  rcases List.eq_nil_or_concat' x with rfl | ⟨y, c, rfl⟩
  · simp [freshBehind]
  · simp [freshBehind]

theorem afterTag?_append_space {s : List Char} (hs : afterTag? s = none) (hkw : s ∉ tagKeywords)
    (t : List Char) : afterTag? (s ++ ' ' :: t) = none := by
  rw [afterTag?_eq_none_iff] at hs ⊢
  intro kw hmem hp
  have hcut : s ++ [' '] <+: s ++ ' ' :: t := ⟨t, by simp⟩
  have hother : ¬s ++ [' '] <+: kw := by
    intro h
    have hspace : ' ' ∈ kw := h.subset (by simp)
    exact absurd ((tagKeyword_chars kw hmem).2 ' ' hspace) (by decide)
  have hsame : kw ≠ s := by
    rintro rfl
    exact hkw hmem
  rcases List.prefix_or_prefix_of_prefix hp hcut with h | h
  · rcases List.prefix_concat_iff.mp h with heq | h
    · exact hsame (List.append_cancel_right heq)
    · exact hs kw hmem h
  · rcases List.prefix_concat_iff.mp h with heq | h
    · exact hsame (List.append_cancel_right heq).symm
    · exact hother h

/-- Keywords are dropped on both sides of a blank apart, unless the blank takes away the one in
front of it. -/
theorem dropTags_append_space {fresh : Bool} {s : List Char}
    (hs : ∀ x, ∀ kw ∈ tagKeywords, s = x ++ kw → freshBehind fresh x = false) (t : List Char) :
    dropTags fresh (s ++ ' ' :: t) = dropTags fresh s ++ ' ' :: dropTags true t := by
  induction fresh, s using dropTags_induction with
  | nil fresh => rw [List.nil_append, dropTags_space, dropTags, List.nil_append]
  | tag kw hkw rest hd ih =>
    have hrest : ∀ x, ∀ kw' ∈ tagKeywords, rest = x ++ kw' → freshBehind true x = false := by
      rintro x kw' hkw' rfl
      have hx := hs (kw ++ ' ' :: x) kw' hkw' (by simp)
      rw [freshBehind, List.foldl_append, List.foldl_cons] at hx
      exact hx
    rw [List.append_assoc, List.cons_append, dropTags_tag hkw, ih hrest, hd]
  | keep fresh c cs hc hd ih =>
    have hcs : ∀ x, ∀ kw ∈ tagKeywords, cs = x ++ kw →
        freshBehind (!isIdentifierChar c) x = false := by
      rintro x kw hkw rfl
      exact hs (c :: x) kw hkw rfl
    rw [hd, List.cons_append, dropTags_cons, ih hcs, List.cons_append]
    intro hf
    apply afterTag?_append_space (hc hf)
    -- a keyword that starts here would reach up to the blank
    intro hkw
    have hstart := hs [] (c :: cs) hkw rfl
    rw [freshBehind, List.foldl_nil, hf] at hstart
    cases hstart

/-! ## Texts that take no harm -/

/-- A single-spaced text that leaves a blank beside it alone, and that a blank leaves alone. -/
structure IsSolid (s : List Char) : Prop where
  ne_nil : s ≠ []
  first : s.head? ≠ some '>'
  last : s.getLast? ≠ some '<'
  keyword : ¬EndsInKeyword (tighten s)

theorem isSolid_iff {s : List Char} : IsSolid s ↔
    s ≠ [] ∧ s.head? ≠ some '>' ∧ s.getLast? ≠ some '<' ∧ ¬EndsInKeyword (tighten s) :=
  ⟨fun h => ⟨h.ne_nil, h.first, h.last, h.keyword⟩, fun h => ⟨h.1, h.2.1, h.2.2.1, h.2.2.2⟩⟩

instance (s : List Char) : Decidable (IsSolid s) := decidable_of_iff _ isSolid_iff.symm

theorem endsInKeyword_of_append {s t : List Char} (h : EndsInKeyword (s ++ ' ' :: t)) :
    EndsInKeyword t := by
  obtain ⟨x, kw, hkw, he, hfresh⟩ := endsInKeyword_iff.mp h
  have hspace : ' ' ∉ kw := by
    intro hmem
    exact absurd ((tagKeyword_chars kw hkw).2 ' ' hmem) (by decide)
  rcases List.append_eq_append_iff.mp he with ⟨z, rfl, hz⟩ | ⟨z, rfl, rfl⟩
  · cases z with
    | nil =>
      rw [List.nil_append] at hz
      exact absurd (hz ▸ List.mem_cons_self) hspace
    | cons d z =>
      obtain ⟨rfl, rfl⟩ := List.cons_eq_cons.mp hz
      refine endsInKeyword_iff.mpr ⟨z, kw, hkw, rfl, ?_⟩
      intro c hc
      apply hfresh c
      rw [List.getLast?_append_of_ne_nil _ (List.cons_ne_nil _ _), List.getLast?_cons, hc]
      rfl
  · exact absurd (by simp) hspace

def references : List (List Char) := [['&'], ['&', '&']]

section
variable {s t : List Char}

theorem IsSolid.append (hs : s ≠ []) (hfirst : s.head? ≠ some '>') (hlast : s.getLast? ≠ some '<')
    (ht : IsSolid t) : IsSolid (s ++ ' ' :: t) where
  ne_nil := by simp
  first := by rwa [List.head?_append_of_ne_nil _ hs]
  last := by
    rw [List.getLast?_append_of_ne_nil _ (List.cons_ne_nil _ _),
      List.getLast?_cons_of_ne_nil ht.ne_nil]
    exact ht.last
  keyword := by
    rw [tighten_append_cons hlast ht.first]
    exact fun h => ht.keyword (endsInKeyword_of_append h)

theorem IsSolid.dropTags_append (hs : IsSolid s) (ht : IsSolid t) :
    dropTags true (tighten (s ++ ' ' :: t)) =
      dropTags true (tighten s) ++ ' ' :: dropTags true (tighten t) := by
  rw [tighten_append_cons hs.last ht.first, dropTags_append_space]
  intro x kw hkw hx
  by_contra hfresh
  have hfresh := freshBehind_eq_true_iff.mp (by simpa using hfresh)
  exact hs.keyword (endsInKeyword_iff.mpr ⟨x, kw, hkw, hx, hfresh⟩)

theorem IsSolid.dropTags_keyword {kw : List Char} (hkw : kw ∈ tagKeywords) (ht : IsSolid t) :
    dropTags true (tighten (kw ++ ' ' :: t)) = dropTags true (tighten t) := by
  have hend : ∀ kw ∈ tagKeywords, kw.getLast? ≠ some '<' ∧ tighten kw = kw := by decide
  obtain ⟨hlast, htight⟩ := hend kw hkw
  rw [tighten_append_cons hlast ht.first, htight, dropTags_tag hkw]

theorem IsSolid.append_reference {w : List Char} (hw : w ∈ references) (hs : IsSolid s) :
    IsSolid (s ++ w) ∧ dropTags true (tighten (s ++ w)) = dropTags true (tighten s) ++ w := by
  have hsigns : ∀ w ∈ references, w.head? = some '&' ∧ w.getLast? = some '&' ∧
      tighten w = w ∧ w.all (!isBlank ·) := by decide
  obtain ⟨hhead, hlast, htight, hblank⟩ := hsigns w hw
  have happend : tighten (s ++ w) = tighten s ++ w := by
    rw [tighten_append, htight]
    intro a _ b hb
    obtain rfl : '&' = b := Option.some.inj (hhead.symm.trans hb)
    simp
  obtain ⟨w, rfl⟩ := List.head?_eq_some_iff.mp hhead
  have hend : ∀ x : List Char, (x ++ '&' :: w).getLast? = some '&' := by
    intro x
    rw [List.getLast?_append_of_ne_nil _ (List.cons_ne_nil _ _), hlast]
  constructor
  · refine ⟨by simp, ?_, ?_, ?_⟩
    · rw [List.head?_append_of_ne_nil _ hs.ne_nil]
      exact hs.first
    · rw [hend]
      decide
    · rw [happend]
      intro h
      obtain ⟨x, kw, hkw, he, -⟩ := endsInKeyword_iff.mp h
      obtain ⟨hne, hid⟩ := tagKeyword_chars kw hkw
      have hsign := hend (tighten s)
      rw [he, List.getLast?_append_of_ne_nil _ hne] at hsign
      exact absurd (hid '&' (List.mem_of_getLast? hsign)) (by decide)
  · have hplain : ∀ c ∈ '&' :: w, ¬isBlank c := by simpa using hblank
    have hrest : IsNormal w := isNormal_of_forall fun c hc => hplain c (List.mem_cons_of_mem _ hc)
    rw [happend, dropTags_append_cons (by decide) (by decide), dropTags_eq_self hrest.untagged]

end

/-! ## Words put around a type -/

def frontWords : List String := ["const ", "volatile ", "class ", "struct ", "union ", "enum "]

def backWords : List String := [" const", " volatile", "&", " &", "&&", " &&"]

/-- The texts that come from `t` when front words and back words are put around it, in any order and
number. -/
inductive Variant (t : String) : String → Prop
  | self : Variant t t
  | front {w s : String} (hw : w ∈ frontWords) (h : Variant t s) : Variant t (w ++ s)
  | back {w s : String} (hw : w ∈ backWords) (h : Variant t s) : Variant t (s ++ w)

/-- The text is solid when single-spaced, and its normal spelling is `n` with pieces around it. -/
structure Surrounds (n s : List Char) : Prop where
  solid : IsSolid (squeeze s)
  around : ∃ p q, MadeOf qualifiers p ∧ MadeOf backPieces q ∧ normalChars s = p ++ n ++ q

section
variable {n s t v x : List Char}

theorem IsSolid.words_ne_nil (h : IsSolid (squeeze s)) : words s ≠ [] := by
  intro hnil
  apply h.ne_nil
  rw [squeeze, hnil]
  rfl

theorem IsSolid.normalChars_of_squeeze (hs : IsSolid (squeeze s)) (ht : IsSolid (squeeze t))
    (hx : squeeze x = squeeze s ++ ' ' :: squeeze t) :
    normalChars x = normalChars s ++ ' ' :: normalChars t := by
  have hsplit := hs.dropTags_append ht
  rw [← hx] at hsplit
  exact hsplit

theorem Surrounds.qualifier (hv : v ∈ qualifierWords) (h : Surrounds n s) :
    Surrounds n (v ++ ' ' :: s) := by
  have hwords : ∀ v ∈ qualifierWords, IsSolid (squeeze v) ∧ v ++ [' '] ∈ qualifiers ∧
      v.all (!isBlank ·) := by decide
  obtain ⟨hsolid, hpiece, hblank⟩ := hwords v hv
  obtain ⟨p, q, hp, hq, hn⟩ := h.around
  have hsqueeze : squeeze (v ++ ' ' :: s) = squeeze v ++ ' ' :: squeeze s :=
    squeeze_append_cons (by decide) hsolid.words_ne_nil h.solid.words_ne_nil
  constructor
  · rw [hsqueeze]
    exact .append hsolid.ne_nil hsolid.first hsolid.last h.solid
  · refine ⟨v ++ [' '] ++ p, q, (MadeOf.of_mem hpiece).append hp, hq, ?_⟩
    rw [hsolid.normalChars_of_squeeze h.solid hsqueeze, hn,
      normalChars_eq_self (isNormal_of_forall (by simpa using hblank))]
    simp

theorem Surrounds.keyword (hv : v ∈ tagKeywords) (h : Surrounds n s) :
    Surrounds n (v ++ ' ' :: s) := by
  have hwords : ∀ v ∈ tagKeywords, words v ≠ [] ∧ squeeze v = v ∧ v.head? ≠ some '>' ∧
      v.getLast? ≠ some '<' := by decide
  obtain ⟨hne, hsq, hfirst, hlast⟩ := hwords v hv
  have hsqueeze : squeeze (v ++ ' ' :: s) = v ++ ' ' :: squeeze s := by
    rw [squeeze_append_cons (by decide) hne h.solid.words_ne_nil, hsq]
  have hnormal : normalChars (v ++ ' ' :: s) = normalChars s := by
    have hdrop := h.solid.dropTags_keyword hv
    rw [← hsqueeze] at hdrop
    exact hdrop
  constructor
  · rw [hsqueeze]
    exact .append (tagKeyword_chars v hv).1 hfirst hlast h.solid
  · rw [hnormal]
    exact h.around

theorem madeOf_references : ∀ v ∈ references, MadeOf backPieces v := by
  have hsign : MadeOf backPieces ['&'] := .of_mem (by decide)
  have hsigns : MadeOf backPieces ['&', '&'] := hsign.append hsign
  intro v hv
  rw [references, List.mem_pair] at hv
  rcases hv with rfl | rfl
  · exact hsign
  · exact hsigns

theorem Surrounds.behind (hv : v ∈ qualifierWords ++ references) (h : Surrounds n s)
    (hx : squeeze x = squeeze s ++ ' ' :: squeeze v) : Surrounds n x := by
  have hwords : ∀ v ∈ qualifierWords ++ references, IsSolid (squeeze v) ∧
      v.all (!isBlank ·) := by decide
  obtain ⟨hsolid, hblank⟩ := hwords v hv
  have hpieces : MadeOf backPieces (' ' :: v) := by
    rcases List.mem_append.mp hv with hq | hr
    · have hall : ∀ v ∈ qualifierWords, ' ' :: v ∈ backPieces := by decide
      exact .of_mem (hall v hq)
    · have hspace : MadeOf backPieces [' '] := .of_mem (by decide)
      exact hspace.append (madeOf_references v hr)
  obtain ⟨p, q, hp, hq, hn⟩ := h.around
  constructor
  · rw [hx]
    exact .append h.solid.ne_nil h.solid.first h.solid.last hsolid
  · refine ⟨p, q ++ ' ' :: v, hp, hq.append hpieces, ?_⟩
    rw [h.solid.normalChars_of_squeeze hsolid hx, hn,
      normalChars_eq_self (isNormal_of_forall (by simpa using hblank))]
    simp

theorem Surrounds.reference (hv : v ∈ references) (h : Surrounds n s) : Surrounds n (s ++ v) := by
  have hsigns : ∀ v ∈ references, squeeze v = v ∧ words v ≠ [] ∧ v.head? = some '&' := by decide
  obtain ⟨hsq, hne, hhead⟩ := hsigns v hv
  have hfirst : ∀ c ∈ v.head?, ¬isBlank c := by
    intro c hc
    obtain rfl : '&' = c := Option.some.inj (hhead.symm.trans hc)
    decide
  by_cases hend : ∀ c ∈ s.getLast?, ¬isBlank c
  · obtain ⟨p, q, hp, hq, hn⟩ := h.around
    have hsqueeze : squeeze (s ++ v) = squeeze s ++ v := by rw [squeeze_append hend hfirst, hsq]
    obtain ⟨hsolid, hdrop⟩ := h.solid.append_reference hv
    rw [← hsqueeze] at hsolid hdrop
    refine ⟨hsolid, p, q ++ v, hp, hq.append (madeOf_references v hv), ?_⟩
    calc normalChars (s ++ v) = normalChars s ++ v := hdrop
      _ = p ++ n ++ (q ++ v) := by rw [hn, List.append_assoc]
  · push Not at hend
    obtain ⟨b, hb, hblank⟩ := hend
    obtain ⟨y, rfl⟩ := List.getLast?_eq_some_iff.mp hb
    have hwords : words (y ++ [b]) = words y := by
      rw [words_append_cons hblank, words, List.append_nil]
    have hy : words y ≠ [] := hwords ▸ h.solid.words_ne_nil
    apply h.behind (List.mem_append_right _ hv)
    rw [List.append_assoc, List.singleton_append, squeeze_append_cons hblank hy hne]
    rw [squeeze, squeeze, squeeze, hwords]

end

theorem Variant.surrounds {t s : String} {n : List Char} (h : Variant t s)
    (ht : Surrounds n t.toList) : Surrounds n s.toList := by
  induction h with
  | self => exact ht
  | @front w s hw _ ih =>
    have hwords : ∀ w ∈ frontWords, ∃ v ∈ qualifierWords ++ tagKeywords,
        w.toList = v ++ [' '] := by decide +kernel
    obtain ⟨v, hv, hwv⟩ := hwords w hw
    rw [String.toList_append, hwv, List.append_assoc, List.singleton_append]
    rcases List.mem_append.mp hv with hv | hv
    · exact ih.qualifier hv
    · exact ih.keyword hv
  | @back w s hw _ ih =>
    have hwords : ∀ w ∈ backWords, w.toList ∈ references ∨
        ∃ v ∈ qualifierWords ++ references, words v ≠ [] ∧ w.toList = ' ' :: v := by decide +kernel
    rw [String.toList_append]
    rcases hwords w hw with hv | ⟨v, hv, hne, hwv⟩
    · exact ih.reference hv
    · rw [hwv]
      exact ih.behind hv (squeeze_append_cons (by decide) ih.solid.words_ne_nil hne)

/-- A text of a type that takes words around it: its bare spelling is more than a qualifier, and its
ends do not run together with a blank. -/
structure IsQualifiable (t : String) : Prop where
  bare : bare t ∉ ["", "const", "volatile"]
  first : (trim t.toList).head? ≠ some '>'
  last : (trim t.toList).getLast? ≠ some '<'
  keyword : ¬EndsInKeyword (trim t.toList)

theorem IsQualifiable.isSolid {t : String} (h : IsQualifiable t) : IsSolid (squeeze t.toList) := by
  have hsq : squeeze t.toList = squeeze (trim t.toList) := by rw [squeeze, squeeze, words_trim]
  obtain ⟨hfirst, hlast⟩ := ends_trim t.toList
  have hwords : words t.toList ≠ [] := by
    intro hnil
    apply h.bare
    have hnormal : normalChars t.toList = normalChars [] := by
      rw [normalChars, normalChars, spaced, spaced, hnil, words]
    rw [Spelling.bare, bareChars, hnormal]
    exact List.mem_cons.mpr (.inl bare_empty)
  refine ⟨squeeze_ne_nil hwords, ?_, ?_, ?_⟩
  · rw [hsq, head?_squeeze hfirst]
    exact h.first
  · rw [hsq, getLast?_squeeze hlast]
    exact h.last
  · rw [hsq]
    exact fun hend => h.keyword (endsInKeyword_of_spaced hlast hend)

/-- Every spelling of a type that differs by outer qualifiers, keywords and references has the same
bare spelling. -/
theorem bare_of_variant {t s : String} (ht : IsQualifiable t) (hs : Variant t s) :
    bare s = bare t := by
  have hself : Surrounds (normalChars t.toList) t.toList :=
    ⟨ht.isSolid, [], [], .nil _, .nil _, by simp⟩
  obtain ⟨p, q, hp, hq, hn⟩ := (hs.surrounds hself).around
  obtain ⟨pt, qt, hpt, hqt, ht_eq⟩ := normalChars_split t.toList
  obtain ⟨ps, qs, hps, hqs, hs_eq⟩ := normalChars_split s.toList
  have hbare : ∀ w ∈ ["", "const", "volatile"], bareChars t.toList ≠ w.toList := by
    intro w hw he
    apply ht.bare
    rw [bare, he, String.ofList_toList]
    exact hw
  have hword : bareChars t.toList ∉ qualifierWords := by
    intro hmem
    rw [qualifierWords, List.mem_pair] at hmem
    rcases hmem with he | he
    · exact hbare "const" (by decide) he
    · exact hbare "volatile" (by decide) he
  -- two ways to cut the normal spelling of `s`, around either bare spelling
  have hsame : p ++ pt ++ (bareChars t.toList ++ (qt ++ q)) =
      ps ++ (bareChars s.toList ++ qs) := by
    rw [hs_eq, ht_eq] at hn
    simpa using hn.symm
  have heq := (isBare_bareChars t.toList).eq_of_around (isBare_bareChars s.toList)
    (hbare "" (by decide)) hword (hp.append hpt) hps (hqt.append hq) hqs hsame
  rw [bare, bare, heq]

theorem bare_of_variant_pair :
    IsQualifiable " Pair<const int &, enum E > const" ∧
      Variant " Pair<const int &, enum E > const"
        ("volatile " ++ ("class " ++ " Pair<const int &, enum E > const" ++ "&") ++ " volatile") ∧
      bare ("volatile " ++ ("class " ++ " Pair<const int &, enum E > const" ++ "&") ++
        " volatile") = "Pair<const int &, E>" := by
  have ht : IsQualifiable " Pair<const int &, enum E > const" :=
    ⟨by decide +kernel, by decide +kernel, by decide +kernel, by decide +kernel⟩
  have hclass := (Variant.self (t := " Pair<const int &, enum E > const")).front (w := "class ")
    (by decide)
  have hsign := hclass.back (w := "&") (by decide)
  have hs := (hsign.front (w := "volatile ") (by decide)).back (w := " volatile") (by decide)
  refine ⟨ht, hs, ?_⟩
  rw [bare_of_variant ht hs]
  decide +kernel

end TemplateCensus.Spelling
