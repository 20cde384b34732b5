import TemplateCensus.Proofs.Spelling.Arguments
import TemplateCensus.Proofs.Spelling.QualifiedNames

/-! The texts that are template spellings, and what they are made of. Only the number of open
brackets matters, not their kinds: a text between angle brackets is an argument list if its brackets
never close too many and close all, and its arguments stand between the commas outside of them. -/

namespace TemplateCensus.Spelling
open Text

/-! ## Counting brackets -/

def argumentCount (s : List Char) : Int :=
  bracketCount ['<', '(', '[', '\x7b'] ['>', ')', ']', '\x7d'] s

theorem argumentCount_append (s t : List Char) :
    argumentCount (s ++ t) = argumentCount s + argumentCount t := bracketCount_append _ _ s t

theorem argumentCount_cons (c : Char) (s : List Char) :
    argumentCount (c :: s) = argumentCount [c] + argumentCount s := argumentCount_append [c] s

theorem argumentCount_singleton (c : Char) :
    argumentCount [c] = if opensArgument c then 1 else if closesArgument c then -1 else 0 := by
  simp only [argumentCount, bracketCount, opensArgument, closesArgument, List.countP_singleton]
  grind

/-! ## Balanced texts and their pieces -/

structure IsBalanced (depth : Int) (s : List Char) : Prop where
  nonneg : ∀ p, p <+: s → 0 ≤ depth + argumentCount p
  even : depth + argumentCount s = 0

/-- Does a text, read from a bracket count on, end even and have no comma at an even place? -/
structure IsPiece (depth : Int) (p : List Char) : Prop where
  even : depth + argumentCount p = 0
  whole : ∀ q r, p = q ++ ',' :: r → depth + argumentCount q ≠ 0

structure IsCut (s : List Char) (ps : List (List Char)) : Prop where
  ne_nil : ps ≠ []
  joined : [','].intercalate ps = s
  pieces : ∀ p ∈ ps, IsPiece 0 p

theorem isBalanced_nil {depth : Int} : IsBalanced depth [] ↔ depth = 0 := by
  have hnil : argumentCount [] = 0 := rfl
  constructor
  · intro h
    have heven := h.even
    omega
  · rintro rfl
    refine ⟨fun p hp => ?_, rfl⟩
    rw [List.prefix_nil.mp hp]
    exact Int.le_refl 0

theorem isBalanced_cons {depth : Int} {c : Char} {s : List Char} :
    IsBalanced depth (c :: s) ↔ 0 ≤ depth ∧ IsBalanced (depth + argumentCount [c]) s := by
  have hnil : argumentCount [] = 0 := rfl
  constructor
  · intro h
    have hempty := h.nonneg [] List.nil_prefix
    have heven := h.even
    rw [argumentCount_cons] at heven
    refine ⟨by omega, fun p hp => ?_, by omega⟩
    have hcons := h.nonneg (c :: p) (List.cons_prefix_cons.mpr ⟨rfl, hp⟩)
    rw [argumentCount_cons] at hcons
    omega
  · rintro ⟨hdepth, h⟩
    have heven := h.even
    refine ⟨fun p hp => ?_, by rw [argumentCount_cons]; omega⟩
    rcases List.prefix_cons_iff.mp hp with rfl | ⟨t, rfl, ht⟩
    · omega
    · have htail := h.nonneg t ht
      rw [argumentCount_cons]
      omega

theorem IsBalanced.nonneg_depth {depth : Int} {s : List Char} (h : IsBalanced depth s) :
    0 ≤ depth := by
  have hempty := h.nonneg [] List.nil_prefix
  have hnil : argumentCount [] = 0 := rfl
  omega

theorem IsBalanced.split {depth : Int} {p r : List Char} (h : IsBalanced depth (p ++ r))
    (hp : depth + argumentCount p = 0) : IsBalanced depth p ∧ IsBalanced 0 r := by
  have heven := h.even
  rw [argumentCount_append] at heven
  refine ⟨⟨fun q hq => h.nonneg q (hq.trans (List.prefix_append p r)), hp⟩, ⟨?_, by omega⟩⟩
  intro q hq
  have hboth := h.nonneg (p ++ q) ((List.prefix_append_right_inj p).mpr hq)
  rw [argumentCount_append] at hboth
  omega

theorem isPiece_nil {depth : Int} : IsPiece depth [] ↔ depth = 0 := by
  have hnil : argumentCount [] = 0 := rfl
  constructor
  · intro h
    have heven := h.even
    omega
  · rintro rfl
    exact ⟨rfl, fun q r hqr => absurd hqr (by simp)⟩

theorem isPiece_cons {depth : Int} {c : Char} {p : List Char} :
    IsPiece depth (c :: p) ↔ (c = ',' → depth ≠ 0) ∧ IsPiece (depth + argumentCount [c]) p := by
  have hnil : argumentCount [] = 0 := rfl
  constructor
  · intro h
    have heven := h.even
    rw [argumentCount_cons] at heven
    refine ⟨?_, by omega, ?_⟩
    · rintro rfl
      have hwhole := h.whole [] p rfl
      omega
    · intro q r hqr
      have hwhole := h.whole (c :: q) r (by rw [hqr]; rfl)
      rw [argumentCount_cons] at hwhole
      omega
  · rintro ⟨hcomma, h⟩
    have heven := h.even
    refine ⟨by rw [argumentCount_cons]; omega, fun q r hqr => ?_⟩
    cases q with
    | nil =>
      obtain ⟨rfl, -⟩ := List.cons.inj hqr
      have hne := hcomma rfl
      omega
    | cons d q =>
      obtain ⟨rfl, hrest⟩ := List.cons.inj hqr
      have hwhole := h.whole q r hrest
      rw [argumentCount_cons]
      omega

section
variable {depth next : Nat} {c : Char} {cs : List Char}

theorem argumentPieces_cons (hcomma : c = ',' → depth ≠ 0)
    (hnext : (next : Int) = depth + argumentCount [c]) :
    argumentPieces depth (c :: cs) = (argumentPieces next cs).map (consFirst c) := by
  rw [argumentCount_singleton] at hnext
  by_cases ho : opensArgument c
  · rw [if_pos ho] at hnext
    obtain rfl : next = depth + 1 := by omega
    exact argumentPieces_of_opens ho depth cs
  · by_cases hc : closesArgument c
    · rw [if_neg ho, if_pos hc] at hnext
      obtain rfl : depth = next + 1 := by omega
      exact argumentPieces_of_closes ho hc next cs
    · rw [if_neg ho, if_neg hc] at hnext
      obtain rfl : depth = next := by omega
      exact argumentPieces_of_plain ho hc (fun hzero h => hcomma h hzero) cs

theorem argumentPieces_cons_of_neg (hneg : (depth : Int) + argumentCount [c] < 0) :
    argumentPieces depth (c :: cs) = none := by
  rw [argumentCount_singleton] at hneg
  split_ifs at hneg with ho hc
  · omega
  · obtain rfl : depth = 0 := by omega
    simp [argumentPieces, ho, hc]
  · omega

/-- What one character does: a comma at an even place ends a piece, a bracket that closes too many
ends the reading, and any other character joins the first piece of the rest. -/
theorem argumentPieces_cons_cases (depth : Nat) (c : Char) (cs : List Char) :
    (c = ',' ∧ depth = 0 ∧
      argumentPieces depth (c :: cs) = (argumentPieces 0 cs).map ([] :: ·)) ∨
    ((depth : Int) + argumentCount [c] < 0 ∧ argumentPieces depth (c :: cs) = none) ∨
    ∃ next : Nat, (c = ',' → depth ≠ 0) ∧ (next : Int) = depth + argumentCount [c] ∧
      argumentPieces depth (c :: cs) = (argumentPieces next cs).map (consFirst c) := by
  by_cases hcomma : c = ',' ∧ depth = 0
  · obtain ⟨rfl, rfl⟩ := hcomma
    exact .inl ⟨rfl, rfl, rfl⟩
  · by_cases hneg : (depth : Int) + argumentCount [c] < 0
    · exact .inr (.inl ⟨hneg, argumentPieces_cons_of_neg hneg⟩)
    · have hno : c = ',' → depth ≠ 0 := fun h hzero => hcomma ⟨h, hzero⟩
      obtain ⟨next, hnext⟩ := Int.eq_ofNat_of_zero_le (Int.not_lt.mp hneg)
      exact .inr (.inr ⟨next, hno, hnext.symm, argumentPieces_cons hno hnext.symm⟩)

end

theorem isSome_argumentPieces_iff (depth : Nat) (s : List Char) :
    (argumentPieces depth s).isSome ↔ IsBalanced depth s := by
  induction s generalizing depth with
  | nil =>
    rw [isBalanced_nil, argumentPieces]
    split <;> simp_all
  | cons c s ih =>
    rw [isBalanced_cons]
    rcases argumentPieces_cons_cases depth c s with
      ⟨rfl, rfl, hcs⟩ | ⟨hneg, hcs⟩ | ⟨next, -, hnext, hcs⟩
    · have hcount : argumentCount [','] = 0 := rfl
      rw [hcs, Option.isSome_map, ih, hcount]
      simp
    · rw [hcs]
      have hno : ¬IsBalanced (depth + argumentCount [c]) s := fun h => by
        have := h.nonneg_depth
        omega
      simp [hno]
    · rw [hcs, Option.isSome_map, ih, hnext]
      simp

theorem exists_of_argumentPieces {depth : Nat} {s : List Char} {ps : List (List Char)}
    (h : argumentPieces depth s = some ps) :
    [','].intercalate ps = s ∧ ∃ p qs, ps = p :: qs ∧ IsPiece depth p ∧ ∀ q ∈ qs, IsPiece 0 q := by
  induction s generalizing depth ps with
  | nil =>
    rw [argumentPieces] at h
    split at h
    · next hzero =>
      subst hzero
      obtain rfl := Option.some.inj h
      exact ⟨rfl, [], [], rfl, isPiece_nil.mpr rfl, List.forall_mem_nil _⟩
    · cases h
  | cons c s ih =>
    rcases argumentPieces_cons_cases depth c s with
      ⟨rfl, rfl, hcs⟩ | ⟨-, hcs⟩ | ⟨next, hcomma, hnext, hcs⟩
    · rw [hcs] at h
      obtain ⟨qs, hqs, rfl⟩ := Option.map_eq_some_iff.mp h
      obtain ⟨hjoined, p, ps, rfl, hp, hps⟩ := ih hqs
      refine ⟨by rw [List.intercalate_cons_cons, hjoined]; rfl, [], p :: ps, rfl,
        isPiece_nil.mpr rfl, ?_⟩
      exact List.forall_mem_cons.mpr ⟨hp, hps⟩
    · rw [hcs] at h
      cases h
    · rw [hcs] at h
      obtain ⟨qs, hqs, rfl⟩ := Option.map_eq_some_iff.mp h
      obtain ⟨hjoined, p, ps, rfl, hp, hps⟩ := ih hqs
      rw [hnext] at hp
      refine ⟨?_, c :: p, ps, rfl, isPiece_cons.mpr ⟨fun hc => ?_, hp⟩, hps⟩
      · rw [intercalate_consFirst (List.cons_ne_nil p ps), hjoined]
      · exact fun hzero => hcomma hc (by omega)

theorem argumentPieces_append_of_isPiece {depth : Nat} {p : List Char}
    (hb : IsBalanced depth p) (hp : IsPiece depth p) (r : List Char) :
    argumentPieces depth (p ++ r) = (argumentPieces 0 r).map (p.foldr consFirst ·) := by
  induction p generalizing depth with
  | nil =>
    obtain rfl : depth = 0 := by
      have hzero := isPiece_nil.mp hp
      omega
    simp
  | cons c p ih =>
    obtain ⟨-, hb⟩ := isBalanced_cons.mp hb
    obtain ⟨hcomma, hp⟩ := isPiece_cons.mp hp
    obtain ⟨next, hnext⟩ := Int.eq_ofNat_of_zero_le hb.nonneg_depth
    rw [hnext] at hb hp
    have hno : c = ',' → depth ≠ 0 := fun hc hzero => hcomma hc (by omega)
    rw [List.cons_append, argumentPieces_cons hno hnext.symm, ih hb hp, Option.map_map]
    rfl

theorem argumentPieces_of_isCut {s : List Char} {ps : List (List Char)} (hs : IsBalanced 0 s)
    (h : IsCut s ps) : argumentPieces 0 s = some ps := by
  obtain ⟨hne, rfl, hps⟩ := h
  induction ps with
  | nil => exact absurd rfl hne
  | cons p ps ih =>
    have hp := hps p List.mem_cons_self
    cases ps with
    | nil =>
      rw [List.intercalate_singleton] at hs ⊢
      have happ := argumentPieces_append_of_isPiece hs hp []
      rw [List.append_nil, argumentPieces, if_pos rfl, Option.map_some, foldr_consFirst,
        List.append_nil] at happ
      exact happ
    | cons q ps =>
      rw [List.intercalate_cons_cons, List.append_assoc] at hs ⊢
      obtain ⟨hbefore, hbehind⟩ := hs.split hp.even
      obtain ⟨-, hrest⟩ := isBalanced_cons.mp hbehind
      have hcut := ih (List.cons_ne_nil q ps) (fun x hx => hps x (List.mem_cons_of_mem p hx)) hrest
      have hcomma : argumentPieces 0 ([','] ++ [','].intercalate (q :: ps)) =
          some ([] :: q :: ps) := by
        rw [List.singleton_append, argumentPieces_comma, hcut, Option.map_some]
      have happ := argumentPieces_append_of_isPiece hbefore hp
        ([','] ++ [','].intercalate (q :: ps))
      rw [hcomma, Option.map_some, foldr_consFirst, List.append_nil] at happ
      exact happ

theorem exists_isCut {s : List Char} (hs : IsBalanced 0 s) : ∃ ps, IsCut s ps := by
  obtain ⟨ps, hps⟩ := Option.isSome_iff_exists.mp ((isSome_argumentPieces_iff 0 s).mpr hs)
  obtain ⟨hjoined, p, qs, rfl, hp, hqs⟩ := exists_of_argumentPieces hps
  exact ⟨p :: qs, List.cons_ne_nil p qs, hjoined, List.forall_mem_cons.mpr ⟨hp, hqs⟩⟩

/-! ## Template spellings -/

theorem exists_of_templateChars? {s : List Char} (h : (templateChars? s).isSome) :
    ∃ name m, name ≠ [] ∧ '<' ∉ name ∧ s = name ++ '<' :: (m ++ ['>']) ∧
      (argumentPieces 0 m).isSome := by
  by_cases hangle : '<' ∈ s
  · obtain ⟨name, rest, rfl, hname⟩ := List.eq_append_cons_of_mem hangle
    rw [templateChars?_of_angle hname] at h
    split_ifs at h with hcond
    · cases h
    · simp only [Bool.or_eq_true, not_or, decide_eq_true_eq, ne_eq, not_not, List.isEmpty_iff]
        at hcond
      obtain ⟨hne, hlast⟩ := hcond
      obtain ⟨m, rfl⟩ := List.getLast?_eq_some_iff.mp hlast
      rw [List.dropLast_concat, Option.isSome_map] at h
      exact ⟨name, m, hne, hname, rfl, h⟩
  · rw [templateChars?_of_no_angle hangle] at h
    cases h

theorem templateChars?_of_isCut {name m : List Char} (hne : name ≠ []) (hangle : '<' ∉ name)
    (hm : IsBalanced 0 m) {ps : List (List Char)} (hps : IsCut m ps) :
    templateChars? (name ++ '<' :: (m ++ ['>'])) = some (trim name, trimmedArguments ps) := by
  rw [templateChars?_enclosed hne hangle, argumentPieces_of_isCut hm hps, Option.map_some]

theorem trimmedArguments_of_isCut {m : List Char} {ps : List (List Char)} (h : IsCut m ps) :
    trimmedArguments ps = if m.all isBlank then [] else ps.map trim := by
  obtain ⟨hne, rfl, -⟩ := h
  have hone : ps.map trim = [[]] ↔ ([','].intercalate ps).all isBlank := by
    constructor
    · intro hmap
      obtain ⟨p, rfl, hp⟩ := List.map_eq_singleton_iff.mp hmap
      rw [List.intercalate_singleton, List.all_eq_true]
      exact trim_eq_nil_iff.mp hp
    · intro hblank
      rw [List.all_eq_true] at hblank
      obtain ⟨p, qs, rfl⟩ := List.exists_cons_of_ne_nil hne
      cases qs with
      | nil =>
        rw [List.intercalate_singleton] at hblank
        rw [List.map_singleton, trim_eq_nil_iff.mpr hblank]
      | cons q qs =>
        have hcomma := hblank ',' (by rw [List.intercalate_cons_cons]; simp)
        exact absurd hcomma (by decide)
  unfold trimmedArguments
  split
  · next hmap => rw [if_pos (hone.mp hmap)]
  · next hmap => rw [if_neg fun hblank => hmap (hone.mpr hblank)]

/-! ## Rendered arguments -/

theorem IsBalanced.append {depth : Int} {p r : List Char} (hp : IsBalanced depth p)
    (hr : IsBalanced 0 r) : IsBalanced depth (p ++ r) := by
  induction p generalizing depth with
  | nil =>
    rw [isBalanced_nil.mp hp]
    exact hr
  | cons c p ih =>
    obtain ⟨hdepth, hp⟩ := isBalanced_cons.mp hp
    exact isBalanced_cons.mpr ⟨hdepth, ih hp⟩

theorem isCut_rendered {a : List Char} {as : List (List Char)} (h : ∀ x ∈ a :: as, IsPiece 0 x) :
    IsCut ([',', ' '].intercalate (a :: as)) (a :: as.map (' ' :: ·)) := by
  have hblank : ∀ x, IsPiece 0 x → IsPiece 0 (' ' :: x) := by
    intro x hx
    exact isPiece_cons.mpr ⟨fun hc => absurd hc (by decide), hx⟩
  refine ⟨List.cons_ne_nil _ _, ?_, ?_⟩
  · clear h hblank
    induction as generalizing a with
    | nil => rfl
    | cons b as ih =>
      have hrest := ih (a := b)
      rw [List.map_cons, List.intercalate_cons_cons, List.intercalate_cons_cons_left, hrest,
        List.intercalate_cons_cons]
      simp
  · intro p hp
    rcases List.mem_cons.mp hp with rfl | hp
    · exact h p List.mem_cons_self
    · obtain ⟨x, hx, rfl⟩ := List.mem_map.mp hp
      exact hblank x (h x (List.mem_cons_of_mem a hx))

theorem isBalanced_rendered {as : List (List Char)} (h : ∀ x ∈ as, IsBalanced 0 x) :
    IsBalanced 0 ([',', ' '].intercalate as) := by
  induction as with
  | nil => exact isBalanced_nil.mpr rfl
  | cons a as ih =>
    have ha := h a List.mem_cons_self
    have hrest := ih fun x hx => h x (List.mem_cons_of_mem a hx)
    cases as with
    | nil => rwa [List.intercalate_singleton]
    | cons b as =>
      have hsep : IsBalanced 0 [',', ' '] :=
        isBalanced_cons.mpr ⟨Int.le_refl 0, isBalanced_cons.mpr ⟨by decide, isBalanced_nil.mpr rfl⟩⟩
      rw [List.intercalate_cons_cons]
      exact (ha.append hsep).append hrest

theorem trimmedArguments_rendered {a : List Char} {as : List (List Char)}
    (htrim : ∀ x ∈ a :: as, trim x = x) (hne : a :: as ≠ [[]]) :
    trimmedArguments (a :: as.map (' ' :: ·)) = a :: as := by
  have hblank : ∀ x ∈ as, (trim ∘ (' ' :: ·)) x = id x := by
    intro x hx
    have hx := htrim x (List.mem_cons_of_mem a hx)
    exact hx
  have hmap : (a :: as.map (' ' :: ·)).map trim = a :: as := by
    rw [List.map_cons, List.map_map, List.map_congr_left hblank, List.map_id,
      htrim a List.mem_cons_self]
  unfold trimmedArguments
  split
  · next hempty => exact absurd (hmap.symm.trans hempty) hne
  · exact hmap

/-! ## Reading template spellings -/

theorem splitTemplate_applied {h m : String} (hne : h ≠ "") (hangle : '<' ∉ h.toList)
    (hm : IsBalanced 0 m.toList) {ps : List (List Char)} (hps : IsCut m.toList ps) :
    splitTemplate (applied h m) = (trimmed h, (trimmedArguments ps).map String.ofList, true) := by
  have hname : h.toList ≠ [] := by simpa using hne
  rw [splitTemplate, template?, toList_applied, templateChars?_of_isCut hname hangle hm hps]
  rfl

theorem isSome_template?_iff (s : String) :
    (template? s).isSome ↔
      ∃ h m, s = applied h m ∧ h ≠ "" ∧ '<' ∉ h.toList ∧ IsBalanced 0 m.toList := by
  rw [template?, Option.isSome_map]
  constructor
  · intro hsome
    obtain ⟨name, m, hne, hangle, hs, hm⟩ := exists_of_templateChars? hsome
    refine ⟨String.ofList name, String.ofList m, ?_, by simpa using hne, by simpa using hangle, ?_⟩
    · apply String.toList_inj.mp
      simpa [toList_applied] using hs
    · simpa using (isSome_argumentPieces_iff 0 m).mp hm
  · rintro ⟨h, m, rfl, hne, hangle, hm⟩
    obtain ⟨ps, hps⟩ := exists_isCut hm
    rw [toList_applied, templateChars?_of_isCut (by simpa using hne) hangle hm hps]
    rfl

theorem splitTemplate_of_none {s : String} (h : template? s = none) :
    splitTemplate s = (s, [], false) := by rw [splitTemplate, h]

theorem splitTemplate_isSome (s : String) : (splitTemplate s).2.2 = (template? s).isSome := by
  unfold splitTemplate
  cases template? s <;> rfl

theorem splitTemplate_rendered {h : String} {args : List String} (hne : h ≠ "")
    (htrim : trimmed h = h) (hangle : '<' ∉ h.toList)
    (hargs : ∀ a ∈ args, trimmed a = a ∧ IsBalanced 0 a.toList ∧ IsPiece 0 a.toList)
    (hempty : args ≠ [""]) :
    splitTemplate (applied h (", ".intercalate args)) = (h, args, true) := by
  have htext : (", ".intercalate args).toList = [',', ' '].intercalate (args.map String.toList) :=
    String.toList_intercalate
  have hbalanced : IsBalanced 0 (", ".intercalate args).toList := by
    rw [htext]
    apply isBalanced_rendered
    intro x hx
    obtain ⟨a, ha, rfl⟩ := List.mem_map.mp hx
    exact (hargs a ha).2.1
  cases args with
  | nil =>
    have hcut : IsCut (", ".intercalate []).toList [[]] :=
      ⟨by simp, rfl, fun p hp => List.mem_singleton.mp hp ▸ isPiece_nil.mpr rfl⟩
    rw [splitTemplate_applied hne hangle hbalanced hcut, htrim]
    rfl
  | cons a as =>
    have hpieces : ∀ x ∈ a.toList :: as.map String.toList, IsPiece 0 x ∧ trim x = x := by
      intro x hx
      rw [← List.map_cons] at hx
      obtain ⟨b, hb, rfl⟩ := List.mem_map.mp hx
      obtain ⟨hb, -, hpiece⟩ := hargs b hb
      exact ⟨hpiece, by simpa [trimmed] using congrArg String.toList hb⟩
    have hcut := isCut_rendered fun x hx => (hpieces x hx).1
    rw [← List.map_cons, ← htext] at hcut
    have hone : a.toList :: as.map String.toList ≠ [[]] := by
      intro h
      apply hempty
      simpa using h
    rw [splitTemplate_applied hne hangle hbalanced hcut, htrim,
      trimmedArguments_rendered (fun x hx => (hpieces x hx).2) hone]
    simp

/-- A text is read as a template spelling exactly if it is a name without `<` in front of a balanced
text in angle brackets. Any other text is left as it is. The arguments are the trimmed pieces of
the text in brackets, of which there is one cut only, and a blank text has none. So what is written
with arguments is read with the same arguments. -/
theorem splitTemplate_grammar :
    (∀ s : String,
      ((splitTemplate s).2.2 ↔
        ∃ h m, s = applied h m ∧ h ≠ "" ∧ '<' ∉ h.toList ∧ IsBalanced 0 m.toList) ∧
      (¬(splitTemplate s).2.2 → splitTemplate s = (s, [], false)) ∧
      ∀ h m, s = applied h m → h ≠ "" → '<' ∉ h.toList → IsBalanced 0 m.toList →
        ∃ ps, IsCut m.toList ps ∧ (∀ qs, IsCut m.toList qs → qs = ps) ∧
          splitTemplate s = (trimmed h,
            if m.toList.all isBlank then [] else ps.map fun p => String.ofList (trim p), true)) ∧
    ∀ (h : String) (args : List String), h ≠ "" → trimmed h = h → '<' ∉ h.toList →
      (∀ a ∈ args, trimmed a = a ∧ IsBalanced 0 a.toList ∧
        ∀ q r, a.toList = q ++ ',' :: r → argumentCount q ≠ 0) → args ≠ [""] →
      splitTemplate (applied h (", ".intercalate args)) = (h, args, true) := by
  refine ⟨fun s => ⟨?_, ?_, ?_⟩, ?_⟩
  · rw [splitTemplate_isSome]
    exact isSome_template?_iff s
  · intro hfail
    rw [splitTemplate_isSome, Option.not_isSome_iff_eq_none] at hfail
    exact splitTemplate_of_none hfail
  · rintro h m rfl hne hangle hm
    obtain ⟨ps, hps⟩ := exists_isCut hm
    refine ⟨ps, hps, ?_, ?_⟩
    · intro qs hqs
      have hboth := (argumentPieces_of_isCut hm hqs).symm.trans (argumentPieces_of_isCut hm hps)
      exact Option.some.inj hboth
    · rw [splitTemplate_applied hne hangle hm hps, trimmedArguments_of_isCut hps]
      split <;> simp
  · intro h args hne htrim hangle hargs hempty
    apply splitTemplate_rendered hne htrim hangle _ hempty
    intro a ha
    obtain ⟨htrim, hbalanced, hwhole⟩ := hargs a ha
    refine ⟨htrim, hbalanced, hbalanced.even, fun q r hqr => ?_⟩
    have hcount := hwhole q r hqr
    omega

theorem splitTemplate_grammar_nested :
    splitTemplate "Map<f(int, char) [2], pair<a, b>, >" =
      ("Map", ["f(int, char) [2]", "pair<a, b>", ""], true) := by
  have hargs : ∀ a ∈ ["f(int, char) [2]", "pair<a, b>", ""], trimmed a = a ∧
      (argumentPieces 0 a.toList).isSome ∧ ∀ n ≤ a.toList.length, [','] <+: a.toList.drop n →
        argumentCount (a.toList.take n) ≠ 0 := by decide +kernel
  have htext : applied "Map" (", ".intercalate ["f(int, char) [2]", "pair<a, b>", ""]) =
      "Map<f(int, char) [2], pair<a, b>, >" := by decide +kernel
  rw [← htext]
  apply splitTemplate_grammar.2 "Map" _ (by decide) (by decide) (by decide) _ (by decide)
  intro a ha
  obtain ⟨htrim, hsome, hwhole⟩ := hargs a ha
  exact ⟨htrim, (isSome_argumentPieces_iff 0 _).mp hsome, forall_split_of_forall_take [','] hwhole⟩

end TemplateCensus.Spelling
