import TemplateCensus.Proofs.Spelling.Bare
import TemplateCensus.Proofs.Spelling.Scope

/-! The arguments of a template spelling. Normalizing a spelling and then cutting it gives the same
arguments as normalizing each of them: neither blanks nor keywords reach over the commas and the
brackets at which the list is cut. -/

namespace TemplateCensus.Spelling
open Text

/-! ## Blanks at a cut -/

def squeeze (s : List Char) : List Char := [' '].intercalate (words s)

theorem squeeze_cons_blank {c : Char} (hc : isBlank c) (cs : List Char) :
    squeeze (c :: cs) = squeeze cs := by
  rw [squeeze, words, if_pos hc, squeeze]

theorem squeeze_cons {c : Char} {cs : List Char} (hc : ¬isBlank c)
    (hcs : ∀ d ∈ cs.head?, ¬isBlank d) : squeeze (c :: cs) = c :: squeeze cs := by
  cases cs with
  | nil => simp [squeeze, words, hc]
  | cons d cs =>
    obtain ⟨w, ws, hw, hcw⟩ := words_cons_of_not_blank hc (hcs d rfl) cs
    rw [squeeze, squeeze, hcw, hw, List.intercalate_cons_cons_left]

theorem squeeze_cons_cons {c d : Char} {cs : List Char} (hc : ¬isBlank c) (hd : isBlank d)
    (hcs : words cs ≠ []) : squeeze (c :: d :: cs) = c :: ' ' :: squeeze cs := by
  have hw : words (c :: d :: cs) = [c] :: words cs := by
    rw [words, if_neg hc, words, if_pos hd]
    simp [hd]
  rw [squeeze, hw, List.intercalate_cons_of_ne_nil hcs, squeeze]
  rfl

theorem words_ne_nil {c : Char} {s : List Char} (h : c ∈ s) (hc : ¬isBlank c) : words s ≠ [] := by
  induction s with
  | nil => exact nomatch h
  | cons d s ih =>
    rw [words]
    split_ifs with hd
    · rcases List.mem_cons.mp h with rfl | h
      · exact absurd hd hc
      · exact ih h
    · split <;> exact List.cons_ne_nil _ _

theorem squeeze_ne_nil {s : List Char} (h : words s ≠ []) : squeeze s ≠ [] := by
  obtain ⟨w, ws, hws⟩ := List.exists_cons_of_ne_nil h
  rw [squeeze, hws]
  exact intercalate_ne_nil (mem_words (hws ▸ List.mem_cons_self)).1 ws

theorem squeeze_append {s t : List Char} (hs : ∀ c ∈ s.getLast?, ¬isBlank c)
    (ht : ∀ c ∈ t.head?, ¬isBlank c) : squeeze (s ++ t) = squeeze s ++ squeeze t := by
  induction s with
  | nil => rfl
  | cons c s ih =>
    cases s with
    | nil =>
      have hc : ¬isBlank c := hs c rfl
      rw [List.singleton_append, squeeze_cons hc ht, squeeze_cons hc (by simp)]
      rfl
    | cons d s =>
      rw [List.getLast?_cons_cons] at hs
      have ih := ih hs
      by_cases hc : isBlank c
      · rw [List.cons_append, squeeze_cons_blank hc, squeeze_cons_blank hc, ih]
      · by_cases hd : isBlank d
        · -- the text does not end with the blank, so a word follows it
          obtain ⟨e, he, hne⟩ : ∃ e ∈ s, ¬isBlank e := by
            cases s with
            | nil => exact absurd hd (hs d rfl)
            | cons f s =>
              have hl := List.getLast?_eq_some_getLast (List.cons_ne_nil f s)
              rw [List.getLast?_cons_cons] at hs
              exact ⟨_, List.mem_of_getLast? hl, hs _ hl⟩
          have hw : words s ≠ [] := words_ne_nil he hne
          have hw' : words (s ++ t) ≠ [] := words_ne_nil (List.mem_append_left t he) hne
          rw [List.cons_append, List.cons_append, squeeze_cons_cons hc hd hw',
            squeeze_cons_cons hc hd hw]
          rw [List.cons_append, squeeze_cons_blank hd, squeeze_cons_blank hd] at ih
          rw [ih]
          rfl
        · have hhead : ∀ e ∈ (d :: s).head?, ¬isBlank e := by simpa using hd
          have hhead' : ∀ e ∈ (d :: s ++ t).head?, ¬isBlank e := by simpa using hd
          rw [List.cons_append, squeeze_cons hc hhead', squeeze_cons hc hhead, ih]
          rfl

theorem head?_squeeze {s : List Char} (hs : ∀ c ∈ s.head?, ¬isBlank c) :
    (squeeze s).head? = s.head? := by
  cases s with
  | nil => rfl
  | cons c s =>
    have hc : ¬isBlank c := hs c rfl
    obtain ⟨w, ws, hw⟩ : ∃ w ws, words (c :: s) = (c :: w) :: ws := by
      rw [words, if_neg hc]
      split
      · exact ⟨_, _, rfl⟩
      · exact ⟨[], _, rfl⟩
    rw [squeeze, hw, List.intercalate_cons_cons_left]
    rfl

theorem tighten_append {s t : List Char}
    (h : ∀ a ∈ s.getLast?, ∀ b ∈ t.head?, ¬(a = '<' ∧ b = ' ') ∧ ¬(a = ' ' ∧ b = '>')) :
    tighten (s ++ t) = tighten s ++ tighten t := by
  induction s using tighten.induct with
  | case1 => rfl
  | case2 cs ih =>
    rw [tighten, List.cons_append, List.cons_append, tighten, ih, List.cons_append]
    intro a ha
    exact h a (by cases cs <;> simp_all)
  | case3 cs ih =>
    rw [tighten, List.cons_append, List.cons_append, tighten, ih, List.cons_append]
    intro a ha
    exact h a (by cases cs <;> simp_all)
  | case4 c cs h1 h2 ih =>
    have hcs : ∀ a ∈ cs.getLast?, a ∈ (c :: cs).getLast? := by
      intro a ha
      rw [List.getLast?_cons, ha]
      rfl
    rw [tighten_cons h1 h2, List.cons_append, tighten_cons, ih fun a ha => h a (hcs a ha),
      List.cons_append]
    · rintro ds rfl hds
      cases cs with
      | nil =>
        have hb : ' ' ∈ t.head? := by
          rw [List.nil_append] at hds
          rw [hds]
          rfl
        exact (h '<' rfl ' ' hb).1 ⟨rfl, rfl⟩
      | cons d cs => exact h1 cs rfl (by simp_all)
    · rintro ds rfl hds
      cases cs with
      | nil =>
        have hb : '>' ∈ t.head? := by
          rw [List.nil_append] at hds
          rw [hds]
          rfl
        exact (h ' ' rfl '>' hb).2 ⟨rfl, rfl⟩
      | cons d cs => exact h2 cs rfl (by simp_all)

theorem spaced_squeeze (s : List Char) : Spaced Apart (squeeze s) :=
  spaced_intercalate fun _ => mem_words

theorem spaced_append {s t : List Char} (hs : ∀ c ∈ s.getLast?, ¬isBlank c)
    (ht : ∀ c ∈ t.head?, ¬isBlank c) : spaced (s ++ t) = spaced s ++ spaced t := by
  have hsq : spaced (s ++ t) = tighten (squeeze s ++ squeeze t) := by
    rw [← squeeze_append hs ht]
    rfl
  rw [hsq, tighten_append]
  · rfl
  · intro a ha b hb
    have ha' := (spaced_squeeze s).last a ha
    have hb' := (spaced_squeeze t).first b hb
    refine ⟨fun h => hb' ?_, fun h => ha' ?_⟩
    · rw [h.2]
      decide
    · rw [h.1]
      decide

theorem spaced_comma {t : List Char} (hne : t ≠ []) (ht : ∀ c ∈ t.head?, ¬isBlank c)
    (hclose : t.head? ≠ some '>') : spaced (',' :: ' ' :: t) = ',' :: ' ' :: spaced t := by
  obtain ⟨c, t, rfl⟩ := List.exists_cons_of_ne_nil hne
  have hw : words (c :: t) ≠ [] := words_ne_nil List.mem_cons_self (ht c rfl)
  have hsq : spaced (',' :: ' ' :: c :: t) = tighten (',' :: ' ' :: squeeze (c :: t)) :=
    congrArg tighten (squeeze_cons_cons (by decide) (by decide) hw)
  have hhead : (squeeze (c :: t)).head? ≠ some '>' := by rwa [head?_squeeze ht]
  rw [hsq, tighten_cons (by simp) (by simp), tighten_cons (by simp)]
  · rfl
  · intro ds _ hds
    rw [hds] at hhead
    exact hhead rfl

/-! ## Keywords at a cut -/

theorem afterTag?_append {kw : List Char} (hkw : kw ∈ tagKeywords) (r : List Char) :
    afterTag? (kw ++ ' ' :: r) = some r := by
  simp only [tagKeywords, List.mem_cons, List.not_mem_nil, or_false] at hkw
  rcases hkw with rfl | rfl | rfl | rfl <;> rfl

theorem dropTags_tag {kw : List Char} (hkw : kw ∈ tagKeywords) (r : List Char) :
    dropTags true (kw ++ ' ' :: r) = dropTags true r := by
  have hafter := afterTag?_append hkw r
  obtain ⟨c, cs, hcs⟩ := List.exists_cons_of_ne_nil (tagKeyword_chars kw hkw).1
  rw [hcs, List.cons_append] at hafter ⊢
  rw [dropTags]
  split <;> simp_all

theorem dropTags_cons {fresh : Bool} {c : Char} {cs : List Char}
    (h : fresh → afterTag? (c :: cs) = none) :
    dropTags fresh (c :: cs) = c :: dropTags (!isIdentifierChar c) cs := by
  rw [dropTags]
  split <;> simp_all

theorem dropTags_space (fresh : Bool) (t : List Char) :
    dropTags fresh (' ' :: t) = ' ' :: dropTags true t := by
  apply dropTags_cons
  intro _
  refine afterTag?_eq_none_iff.mpr fun kw hkw hp => ?_
  obtain ⟨hne, hid⟩ := tagKeyword_chars kw hkw
  obtain ⟨c, w, rfl⟩ := List.exists_cons_of_ne_nil hne
  obtain ⟨rfl, -⟩ := List.cons_prefix_cons.mp hp
  exact absurd (hid ' ' List.mem_cons_self) (by decide)

theorem afterTag?_append_cons {s : List Char} {d : Char} (hs : afterTag? s = none)
    (hd : ¬isIdentifierChar d) (hblank : d ≠ ' ') (t : List Char) :
    afterTag? (s ++ d :: t) = none := by
  rw [afterTag?_eq_none_iff] at hs ⊢
  intro kw hkw hp
  have hcut : s ++ [d] <+: s ++ d :: t := ⟨t, by simp⟩
  rcases List.prefix_or_prefix_of_prefix hp hcut with hp | hp
  · rcases List.prefix_concat_iff.mp hp with heq | hp
    · exact hblank (List.append_inj_right' heq rfl |> List.singleton_inj.mp).symm
    · exact hs kw hkw hp
  · have hmem : d ∈ kw ++ [' '] := hp.subset (by simp)
    rcases List.mem_append.mp hmem with hmem | hmem
    · exact hd ((tagKeyword_chars kw hkw).2 d hmem)
    · exact hblank (List.mem_singleton.mp hmem)

theorem dropTags_append_cons {d : Char} (hd : ¬isIdentifierChar d) (hblank : d ≠ ' ')
    (fresh : Bool) (s t : List Char) :
    dropTags fresh (s ++ d :: t) = dropTags fresh s ++ d :: dropTags true t := by
  have hnext : (!isIdentifierChar d) = true := by simpa using hd
  have hnil : afterTag? [] = none := by decide
  induction fresh, s using dropTags_induction with
  | nil fresh =>
    rw [List.nil_append, dropTags_cons fun _ => afterTag?_append_cons hnil hd hblank t, hnext,
      dropTags]
    rfl
  | tag kw hkw rest hdrop ih =>
    rw [List.append_assoc, List.cons_append, dropTags_tag hkw, ih, hdrop]
  | keep fresh c cs hc hdrop ih =>
    rw [hdrop, List.cons_append, dropTags_cons, ih, List.cons_append]
    exact fun hf => afterTag?_append_cons (hc hf) hd hblank t

/-! ## Normal spellings put together -/

theorem isNormal_of_forall {w : List Char} (h : ∀ c ∈ w, ¬isBlank c) : IsNormal w := by
  have hspace : ' ' ∉ w := fun hmem => h ' ' hmem (by decide)
  constructor
  · refine ⟨(spaced_of_forall h).blank, ?_, (spaced_of_forall h).first, (spaced_of_forall h).last⟩
    apply List.Pairwise.isChain
    apply List.pairwise_of_forall_mem_list
    intro a ha b hb
    refine ⟨apart_of_left (h a ha), fun hab => ?_, fun hab => ?_⟩
    · exact hspace (hab.2 ▸ hb)
    · exact hspace (hab.1 ▸ ha)
  · clear h
    generalize true = fresh
    induction w generalizing fresh with
    | nil => trivial
    | cons c w ih =>
      refine ⟨fun _ => afterTag?_eq_none_iff.mpr fun kw _ hp => ?_, ih ?_ _⟩
      · exact hspace (hp.subset (by simp))
      · exact fun hmem => hspace (List.mem_cons_of_mem c hmem)

theorem normalChars_append_cons {s t : List Char} {d : Char} (hd : ¬isIdentifierChar d)
    (hblank : ¬isBlank d) (hs : ∀ c ∈ s.getLast?, ¬isBlank c) (ht : ∀ c ∈ t.head?, ¬isBlank c) :
    normalChars (s ++ d :: t) = normalChars s ++ d :: normalChars t := by
  have hspace : d ≠ ' ' := by
    rintro rfl
    exact hblank (by decide)
  have hone : spaced [d] = [d] :=
    spaced_eq_self (isNormal_of_forall (by simpa using hblank)).spaced
  have hcut : spaced (s ++ d :: t) = spaced s ++ d :: spaced t := by
    have hcons : spaced (d :: t) = d :: spaced t := by
      rw [← List.singleton_append, spaced_append (by simpa using hblank) ht, hone]
      rfl
    rw [spaced_append hs (by simpa using hblank), hcons]
  rw [normalChars, hcut, dropTags_append_cons hd hspace]
  rfl

theorem normalChars_append_comma {s t : List Char} (hs : ∀ c ∈ s.getLast?, ¬isBlank c)
    (hne : t ≠ []) (ht : ∀ c ∈ t.head?, ¬isBlank c) (hclose : t.head? ≠ some '>') :
    normalChars (s ++ ',' :: ' ' :: t) = normalChars s ++ ',' :: ' ' :: normalChars t := by
  have hcut : spaced (s ++ ',' :: ' ' :: t) = spaced s ++ ',' :: ' ' :: spaced t := by
    rw [spaced_append hs (by simp; decide), spaced_comma hne ht hclose]
  rw [normalChars, hcut, dropTags_append_cons (by decide) (by decide), dropTags_space]
  rfl

theorem normalChars_ne_nil {s : List Char} (hne : s ≠ []) (hs : ∀ c ∈ s.getLast?, ¬isBlank c) :
    normalChars s ≠ [] := by
  have hlast := List.getLast?_eq_some_getLast hne
  have hw : words s ≠ [] := words_ne_nil (List.mem_of_getLast? hlast) (hs _ hlast)
  have hend : (normalChars s).getLast? = (squeeze s).getLast? := by
    rw [normalChars, getLast?_dropTags (spaced_spaced s).last]
    exact getLast?_tighten (spaced_squeeze s).last
  intro hnil
  rw [hnil, List.getLast?_nil, eq_comm, List.getLast?_eq_none_iff] at hend
  exact squeeze_ne_nil hw hend

/-! ## Brackets and commas are kept -/

def isMark (c : Char) : Bool := opensArgument c || closesArgument c || c = ','

theorem apart_of_isMark {c : Char} (h : isMark c) : ¬isBlank c ∧ ¬isIdentifierChar c := by
  have hall : ['<', '(', '[', '\x7b', '>', ')', ']', '\x7d', ','].all
      fun c => !isBlank c && !isIdentifierChar c := by decide
  have hmem : c ∈ ['<', '(', '[', '\x7b', '>', ')', ']', '\x7d', ','] := by
    simp only [isMark, opensArgument, closesArgument, Bool.or_eq_true, decide_eq_true_eq] at h
    simp only [List.mem_cons, List.not_mem_nil, or_false]
    tauto
  simpa using List.all_eq_true.mp hall c hmem

theorem filter_isMark_of_forall {w : List Char} (h : ∀ c ∈ w, isBlank c ∨ isIdentifierChar c) :
    w.filter isMark = [] := by
  refine List.filter_eq_nil_iff.mpr fun c hc hm => ?_
  rcases h c hc with hb | hi
  · exact (apart_of_isMark hm).1 hb
  · exact (apart_of_isMark hm).2 hi

theorem flatten_words (s : List Char) : (words s).flatten = s.filter (!isBlank ·) := by
  induction s with
  | nil => rfl
  | cons c s ih =>
    rw [words]
    split_ifs with hc
    · simp [hc, ih]
    · rw [List.filter_cons_of_pos (by simpa using hc), ← ih]
      split
      · next w ws _ hw => simp [hw]
      · simp

theorem filter_squeeze (s : List Char) : (squeeze s).filter isMark = s.filter isMark := by
  have hblank : [' '].filter isMark = [] := rfl
  have hjoin : ∀ ws : List (List Char),
      ([' '].intercalate ws).filter isMark = ws.flatten.filter isMark := by
    intro ws
    induction ws with
    | nil => rfl
    | cons w ws ih =>
      cases ws with
      | nil => simp
      | cons v vs =>
        rw [List.intercalate_cons_cons, List.filter_append, List.filter_append, ih, hblank,
          List.append_nil, ← List.filter_append]
        rfl
  rw [squeeze, hjoin, flatten_words, List.filter_filter]
  apply List.filter_congr
  intro c _
  cases hm : isMark c with
  | false => rfl
  | true => simpa using (apart_of_isMark hm).1

theorem filter_tighten (s : List Char) : (tighten s).filter isMark = s.filter isMark := by
  have hblank : ∀ t, (' ' :: t).filter isMark = t.filter isMark := fun t => rfl
  induction s using tighten.induct with
  | case1 => rfl
  | case2 cs ih => rw [tighten, List.filter_cons, List.filter_cons, hblank, ih]
  | case3 cs ih => rw [tighten, hblank, List.filter_cons, List.filter_cons, ih]
  | case4 c cs h1 h2 ih => rw [tighten_cons h1 h2, List.filter_cons, List.filter_cons, ih]

theorem filter_dropTags (fresh : Bool) (s : List Char) :
    (dropTags fresh s).filter isMark = s.filter isMark := by
  induction fresh, s using dropTags_induction with
  | nil fresh => rw [dropTags]
  | tag kw hkw rest hd ih =>
    have hkey : (kw ++ [' ']).filter isMark = [] := by
      refine filter_isMark_of_forall fun c hc => ?_
      rcases List.mem_append.mp hc with hc | hc
      · exact .inr ((tagKeyword_chars kw hkw).2 c hc)
      · exact .inl (List.mem_singleton.mp hc ▸ by decide)
    rw [hd, ih, ← List.singleton_append, ← List.append_assoc, List.filter_append, hkey]
    rfl
  | keep fresh c cs _ hd ih => rw [hd, List.filter_cons, List.filter_cons, ih]

theorem filter_normalChars (s : List Char) : (normalChars s).filter isMark = s.filter isMark := by
  rw [normalChars, filter_dropTags, spaced, filter_tighten]
  exact filter_squeeze s

theorem isBracketed_filter (awaited s : List Char) :
    isBracketed awaited (s.filter isMark) = isBracketed awaited s := by
  induction s generalizing awaited with
  | nil => rfl
  | cons c s ih =>
    cases hm : isMark c with
    | true =>
      rw [List.filter_cons_of_pos hm, isBracketed, isBracketed]
      split
      · exact ih _
      · rw [ih, ih]
    | false =>
      have ho : closer? c = none := by
        cases ho : closer? c with
        | none => rfl
        | some d => simp [isMark, (closer?_eq_some ho).1] at hm
      have hc : ¬closesArgument c := fun hc => by simp [isMark, hc] at hm
      rw [List.filter_cons_of_neg (by simp [hm]), isBracketed, ho, ih]
      exact (if_neg hc).symm

/-! ## Arguments -/

structure IsArgument (s : List Char) : Prop where
  ne_nil : s ≠ []
  first : ∀ c ∈ s.head?, ¬isBlank c
  last : ∀ c ∈ s.getLast?, ¬isBlank c
  bracketed : isBracketed [] s
  /-- A comma stands inside brackets: those in front of it do not match up by themselves. -/
  comma : ∀ n < s.length, s[n]? = some ',' → ¬isBracketed [] (s.take n)

theorem isArgument_iff {s : List Char} :
    (!s.isEmpty && s.head?.all (!isBlank ·) && s.getLast?.all (!isBlank ·) && isBracketed [] s &&
      (List.range s.length).all fun n => s[n]? ≠ some ',' || !isBracketed [] (s.take n)) ↔
        IsArgument s := by
  simp only [Bool.and_eq_true, Bool.not_eq_true', List.isEmpty_eq_false_iff, Option.all_eq_true,
    List.all_eq_true, List.mem_range, Bool.or_eq_true, decide_eq_true_eq, and_assoc]
  constructor
  · rintro ⟨hne, hfirst, hlast, hbracketed, hcomma⟩
    refine ⟨hne, fun c hc => ?_, fun c hc => ?_, hbracketed, fun n hn hn' => ?_⟩
    · simpa using hfirst c hc
    · simpa using hlast c hc
    · simpa [hn'] using hcomma n hn
  · rintro ⟨hne, hfirst, hlast, hbracketed, hcomma⟩
    refine ⟨hne, fun c hc => ?_, fun c hc => ?_, hbracketed, fun n hn => ?_⟩
    · simpa using hfirst c hc
    · simpa using hlast c hc
    · by_cases hn' : s[n]? = some ','
      · exact .inr (by simpa using hcomma n hn hn')
      · exact .inl hn'

instance (s : List Char) : Decidable (IsArgument s) := decidable_of_iff _ isArgument_iff

theorem IsArgument.not_isBracketed {s p q : List Char} (h : IsArgument s)
    (hs : s = p ++ ',' :: q) : ¬isBracketed [] p := by
  subst hs
  simpa using h.comma p.length (by simp) (by simp)

theorem eq_take_append_cons_drop {s : List Char} {n : Nat} {c : Char} (h : s[n]? = some c) :
    s = s.take n ++ c :: s.drop (n + 1) := by
  obtain ⟨hn, rfl⟩ := List.getElem?_eq_some_iff.mp h
  rw [← List.drop_eq_getElem_cons hn, List.take_append_drop]

theorem IsArgument.normal {s : List Char} (h : IsArgument s) :
    IsArgument (normalChars s) := by
  have hn := isNormal_normalChars s
  refine ⟨normalChars_ne_nil h.ne_nil h.last, hn.spaced.first, hn.spaced.last, ?_, ?_⟩
  · rw [← isBracketed_filter, filter_normalChars, isBracketed_filter]
    exact h.bracketed
  · -- the same marks stand in front of the comma in the text itself
    intro n hn hc hb
    have hsplit := eq_take_append_cons_drop hc
    have hmarks : s.filter isMark = ((normalChars s).take n).filter isMark ++
        ',' :: ((normalChars s).drop (n + 1)).filter isMark := by
      rw [← filter_normalChars]
      nth_rewrite 1 [hsplit]
      rw [List.filter_append, List.filter_cons_of_pos (by decide)]
    obtain ⟨p, q, rfl, hp, hq⟩ := List.filter_eq_append_iff.mp hmarks
    obtain ⟨r, t, rfl, hr, -, -⟩ := List.filter_eq_cons_iff.mp hq
    refine h.not_isBracketed (p := p ++ r) (q := t) (by simp) ?_
    rw [← isBracketed_filter, List.filter_append, hp, List.filter_eq_nil_iff.mpr hr, List.append_nil,
      isBracketed_filter]
    exact hb

/-! ## Cutting an argument list -/

theorem isBracketed_append {p awaited : List Char} (hp : isBracketed awaited p)
    (outer r : List Char) : isBracketed (awaited ++ outer) (p ++ r) = isBracketed outer r := by
  induction p generalizing awaited with
  | nil =>
    rw [isBracketed, List.isEmpty_iff] at hp
    rw [hp]
    rfl
  | cons c p ih =>
    rw [List.cons_append, isBracketed]
    rw [isBracketed] at hp
    cases ho : closer? c with
    | some d =>
      rw [ho] at hp
      exact ih hp
    | none =>
      simp only [ho] at hp ⊢
      split_ifs at hp ⊢ with hclose
      · -- the bracket closes the innermost awaited one
        obtain ⟨hhead, hp⟩ := Bool.and_eq_true_iff.mp hp
        obtain ⟨rest, rfl⟩ := List.head?_eq_some_iff.mp (of_decide_eq_true hhead)
        rw [List.cons_append, List.head?_cons, List.tail_cons, decide_eq_true rfl, Bool.true_and]
        exact ih hp
      · exact ih hp

theorem isBracketed_intercalate {as : List (List Char)} (h : ∀ a ∈ as, IsArgument a) :
    isBracketed [] ([',', ' '].intercalate as) := by
  induction as with
  | nil => rfl
  | cons a as ih =>
    have ha := (h a List.mem_cons_self).bracketed
    cases as with
    | nil => rwa [List.intercalate_singleton]
    | cons b as =>
      have hrest := isBracketed_append ha [] ([',', ' '] ++ [',', ' '].intercalate (b :: as))
      rw [List.nil_append] at hrest
      rw [List.intercalate_cons_cons, List.append_assoc, hrest]
      exact ih fun x hx => h x (List.mem_cons_of_mem a hx)

theorem argumentPieces_of_opens {c : Char} (ho : opensArgument c) (depth : Nat) (cs : List Char) :
    argumentPieces depth (c :: cs) = (argumentPieces (depth + 1) cs).map (consFirst c) := by
  cases depth <;> simp [argumentPieces, ho]

theorem argumentPieces_of_closes {c : Char} (ho : ¬opensArgument c) (hc : closesArgument c)
    (depth : Nat) (cs : List Char) :
    argumentPieces (depth + 1) (c :: cs) = (argumentPieces depth cs).map (consFirst c) := by
  rw [argumentPieces, if_neg ho, if_pos hc]

theorem argumentPieces_of_plain {c : Char} (ho : ¬opensArgument c) (hc : ¬closesArgument c)
    {depth : Nat} (hcomma : depth = 0 → c ≠ ',') (cs : List Char) :
    argumentPieces depth (c :: cs) = (argumentPieces depth cs).map (consFirst c) := by
  cases depth with
  | zero => simp [argumentPieces, ho, hc, hcomma rfl]
  | succ depth => simp [argumentPieces, ho, hc]

theorem argumentPieces_comma (cs : List Char) :
    argumentPieces 0 (',' :: cs) = (argumentPieces 0 cs).map ([] :: ·) := rfl

theorem argumentPieces_append {p awaited : List Char} (hp : isBracketed awaited p)
    (hcomma : ∀ q t, p = q ++ ',' :: t → ¬isBracketed awaited q) (r : List Char) :
    argumentPieces awaited.length (p ++ r) =
      (argumentPieces 0 r).map (p.foldr consFirst ·) := by
  induction p generalizing awaited with
  | nil =>
    rw [isBracketed, List.isEmpty_iff] at hp
    subst hp
    simp
  | cons c p ih =>
    have hrest : ∀ awaited', (∀ q, isBracketed awaited (c :: q) = isBracketed awaited' q) →
        ∀ q t, p = q ++ ',' :: t → ¬isBracketed awaited' q := by
      intro awaited' heq q t hqt
      rw [← heq]
      exact hcomma (c :: q) t (by rw [hqt]; rfl)
    have hcons : (argumentPieces 0 r).map ((c :: p).foldr consFirst ·) =
        ((argumentPieces 0 r).map (p.foldr consFirst ·)).map (consFirst c) := by
      rw [Option.map_map]
      rfl
    rw [hcons, List.cons_append]
    cases ho : closer? c with
    | some d =>
      have hstep : ∀ q, isBracketed awaited (c :: q) = isBracketed (d :: awaited) q :=
        fun q => by rw [isBracketed, ho]
      rw [argumentPieces_of_opens (closer?_eq_some ho).1, ← ih (hstep p ▸ hp) (hrest _ hstep)]
      rfl
    | none =>
      have hopen := closer?_eq_none ho
      by_cases hclose : closesArgument c
      · obtain ⟨rest, rfl⟩ : ∃ rest, awaited = c :: rest := by
          simp only [isBracketed, ho, hclose, if_true, Bool.and_eq_true, decide_eq_true_eq] at hp
          exact List.head?_eq_some_iff.mp hp.1
        have hstep : ∀ q, isBracketed (c :: rest) (c :: q) = isBracketed rest q :=
          fun q => by simp [isBracketed, ho, hclose]
        rw [List.length_cons, argumentPieces_of_closes hopen hclose,
          ih (hstep p ▸ hp) (hrest _ hstep)]
      · have hstep : ∀ q, isBracketed awaited (c :: q) = isBracketed awaited q :=
          fun q => by simp [isBracketed, ho, hclose]
        rw [argumentPieces_of_plain hopen hclose, ih (hstep p ▸ hp) (hrest _ hstep)]
        rintro hzero rfl
        rw [List.length_eq_zero_iff] at hzero
        subst hzero
        exact hcomma [] p rfl rfl

theorem argumentPieces_intercalate {as : List (List Char)} (hne : as ≠ [])
    (h : ∀ a ∈ as, IsArgument a) :
    (argumentPieces 0 ([',', ' '].intercalate as)).map (·.map trim) = some as := by
  induction as with
  | nil => exact absurd rfl hne
  | cons a as ih =>
    have ha := h a List.mem_cons_self
    have htrim : trim a = a := trim_eq_self ha.first ha.last
    have hpiece := argumentPieces_append ha.bracketed fun q t => ha.not_isBracketed
    cases as with
    | nil =>
      have hlast : argumentPieces 0 a = some [a] := by
        have happ := hpiece []
        rw [List.append_nil, List.length_nil, argumentPieces, if_pos rfl, Option.map_some,
          foldr_consFirst, List.append_nil] at happ
        exact happ
      rw [List.intercalate_singleton, hlast]
      simp [htrim]
    | cons b as =>
      have ih := ih (List.cons_ne_nil b as) fun x hx => h x (List.mem_cons_of_mem a hx)
      obtain ⟨ps, hps, htrims⟩ := Option.map_eq_some_iff.mp ih
      obtain ⟨p, ps, rfl⟩ := List.exists_cons_of_ne_nil (l := ps) (by rintro rfl; cases htrims)
      have hrest : argumentPieces 0 (',' :: ' ' :: [',', ' '].intercalate (b :: as)) =
          some ([] :: (' ' :: p) :: ps) := by
        rw [argumentPieces_comma, argumentPieces_of_plain (by decide) (by decide) (by decide), hps]
        rfl
      have hwhole : argumentPieces 0 ([',', ' '].intercalate (a :: b :: as)) =
          some (a :: (' ' :: p) :: ps) := by
        have hfirst := hpiece (',' :: ' ' :: [',', ' '].intercalate (b :: as))
        rw [hrest, Option.map_some, foldr_consFirst, List.append_nil] at hfirst
        rw [List.intercalate_cons_cons, List.append_assoc]
        exact hfirst
      have hcut : trim (' ' :: p) = trim p := rfl
      rw [hwhole, Option.map_some, List.map_cons, htrim, List.map_cons, hcut, ← List.map_cons,
        htrims]

theorem template?_applied_intercalate {name : String} (hname : IsTemplateName name)
    {args : List String} (hne : args ≠ []) (hargs : ∀ a ∈ args, IsArgument a.toList) :
    template? (applied name (", ".intercalate args)) = some (name, args) := by
  have hcut : (argumentPieces 0 ([',', ' '].intercalate (args.map String.toList))).map
      (·.map trim) = some (args.map String.toList) :=
    argumentPieces_intercalate (by simpa using hne) (by simpa using hargs)
  obtain ⟨ps, hps, htrims⟩ := Option.map_eq_some_iff.mp hcut
  have hsome : trimmedArguments ps = args.map String.toList := by
    unfold trimmedArguments
    rw [htrims]
    split
    · next hblank =>
      -- a single blank piece would be an empty argument
      obtain ⟨a, rfl, ha⟩ := List.map_eq_singleton_iff.mp hblank
      exact absurd ha (hargs a List.mem_cons_self).ne_nil
    · rfl
  have htext : (", ".intercalate args).toList = [',', ' '].intercalate (args.map String.toList) :=
    String.toList_intercalate
  rw [template?, toList_applied, templateChars?_enclosed (by simpa using hname.ne_empty)
    hname.no_angle, htext, hps, Option.map_some, hsome, hname.trimmed, Option.map_some]
  simp

/-! ## Normal argument lists -/

theorem IsArgument.head?_ne {a : List Char} (h : IsArgument a) : a.head? ≠ some '>' := by
  intro hhead
  obtain ⟨t, rfl⟩ := List.head?_eq_some_iff.mp hhead
  exact absurd h.bracketed (by simp [isBracketed, closer?, closesArgument])

theorem IsArgument.head?_intercalate {a : List Char} (h : IsArgument a) (as : List (List Char))
    (t : List Char) : ([',', ' '].intercalate (a :: as) ++ t).head? = a.head? := by
  obtain ⟨c, a, rfl⟩ := List.exists_cons_of_ne_nil h.ne_nil
  rw [List.intercalate_cons_cons_left]
  rfl

theorem normalChars_nil : normalChars [] = [] :=
  normalChars_eq_self (isNormal_of_forall (by simp))

theorem normalChars_intercalate {as : List (List Char)} (hne : as ≠ [])
    (h : ∀ a ∈ as, IsArgument a) :
    normalChars ([',', ' '].intercalate as ++ ['>']) =
      [',', ' '].intercalate (as.map normalChars) ++ ['>'] := by
  induction as with
  | nil => exact absurd rfl hne
  | cons a as ih =>
    have ha := h a List.mem_cons_self
    cases as with
    | nil =>
      have hend := normalChars_append_cons (d := '>') (t := []) (by decide) (by decide) ha.last
        (by simp)
      rw [List.intercalate_singleton, hend, normalChars_nil, List.map_singleton,
        List.intercalate_singleton]
    | cons b as =>
      have hb := h b (by simp)
      have ih := ih (List.cons_ne_nil b as) fun x hx => h x (List.mem_cons_of_mem a hx)
      have hhead := hb.head?_intercalate as ['>']
      rw [List.intercalate_cons_cons, List.append_assoc, List.append_assoc, List.cons_append,
        List.cons_append, List.nil_append,
        normalChars_append_comma ha.last (by simp) (hhead ▸ hb.first) (hhead ▸ hb.head?_ne), ih]
      simp [List.intercalate_cons_cons]

theorem dropStart_eq_self {t s : List Char} (h : ¬t <+: s) : dropStart t s = s := by
  rw [dropStart, if_neg]
  rwa [List.isPrefixOf_iff_prefix]

/-- A qualifier in front ends with a blank, which would stand in the name. -/
theorem not_prefix_enclosed {name q : List Char} (hname : ∀ c ∈ name, ¬isBlank c)
    (hblank : ' ' ∈ q) (hangle : '<' ∉ q) (r : List Char) : ¬q <+: name ++ '<' :: r := by
  intro hp
  have hcut : name ++ ['<'] <+: name ++ '<' :: r := ⟨r, by simp⟩
  rcases List.prefix_or_prefix_of_prefix hp hcut with hp | hp
  · rcases List.mem_append.mp (hp.subset hblank) with hmem | hmem
    · exact hname ' ' hmem (by decide)
    · exact absurd (List.mem_singleton.mp hmem) (by decide)
  · exact hangle (hp.subset (by simp))

theorem peel_enclosed {name : List Char} (hne : name ≠ []) (hname : ∀ c ∈ name, ¬isBlank c)
    (m : List Char) : peel (name ++ '<' :: (m ++ ['>'])) = name ++ '<' :: (m ++ ['>']) := by
  have hfront : (name ++ '<' :: (m ++ ['>'])).dropWhile isBlank = name ++ '<' :: (m ++ ['>']) := by
    apply dropWhile_eq_self
    intro c hc
    rw [List.head?_append_of_ne_nil _ hne] at hc
    exact hname c (List.mem_of_head? hc)
  have hback : (name ++ '<' :: (m ++ ['>'])).reverse = '>' :: (name ++ '<' :: m).reverse := by simp
  have hend : ∀ r, peelEnd ('>' :: r) = '>' :: r := fun _ => rfl
  rw [peel, hfront, hback, hend, ← hback, List.reverse_reverse,
    dropStart_eq_self (not_prefix_enclosed hname (by decide) (by decide) _),
    dropStart_eq_self (not_prefix_enclosed hname (by decide) (by decide) _)]

theorem bare_applied_intercalate {name : String} (hname : isIdentifier name) {args : List String}
    (hne : args ≠ []) (hargs : ∀ a ∈ args, IsArgument a.toList) :
    bare (applied name (", ".intercalate args)) =
      applied name (", ".intercalate (args.map normal)) := by
  have hchars : ∀ c ∈ name.toList, ¬isBlank c := fun c hc =>
    not_isBlank_of_isNameChar (List.all_eq_true.mp (Bool.and_eq_true_iff.mp hname).2 c hc)
  have hnil : name.toList ≠ [] := by
    intro hnil
    rw [isIdentifier, hnil] at hname
    exact absurd hname (by decide)
  have htext : ∀ as : List String,
      (", ".intercalate as).toList = [',', ' '].intercalate (as.map String.toList) :=
    fun _ => String.toList_intercalate
  have hnormal : (args.map normal).map String.toList =
      (args.map String.toList).map normalChars := by
    simp [normal]
  have hlist : normalChars ([',', ' '].intercalate (args.map String.toList) ++ ['>']) =
      [',', ' '].intercalate ((args.map String.toList).map normalChars) ++ ['>'] :=
    normalChars_intercalate (by simpa using hne) (by simpa using hargs)
  have hwhole : normalChars (applied name (", ".intercalate args)).toList =
      (applied name (", ".intercalate (args.map normal))).toList := by
    rw [toList_applied, toList_applied, htext, htext, hnormal, ← hlist,
      normalChars_append_cons (by decide) (by decide),
      normalChars_eq_self (isNormal_of_forall hchars)]
    · exact fun c hc => hchars c (List.mem_of_getLast? hc)
    · obtain ⟨a, as, rfl⟩ := List.exists_cons_of_ne_nil hne
      have ha := hargs a List.mem_cons_self
      rw [List.map_cons, ha.head?_intercalate]
      exact ha.first
  have hpeel : peel (applied name (", ".intercalate (args.map normal))).toList =
      (applied name (", ".intercalate (args.map normal))).toList := by
    rw [toList_applied]
    exact peel_enclosed hnil hchars _
  rw [bare, bareChars, hwhole, peelAll_eq_self, String.ofList_toList]
  rw [hpeel]
  exact Nat.lt_irrefl _

end TemplateCensus.Spelling
