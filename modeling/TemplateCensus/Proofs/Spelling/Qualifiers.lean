import Mathlib.Data.List.DropRight
import Mathlib.Logic.Function.Iterate
import TemplateCensus.Proofs.Spelling.NameWords

/-! Outer qualifiers. A normal spelling is a bare one with qualifiers in front and qualifiers,
references and blanks behind it, and nothing comes off a bare one. The rounds take the pieces off in
an order of their own, so the argument is about what is left when a round takes off nothing. -/

namespace TemplateCensus.Spelling
open Text

/-! ## Peeling to the end -/

def dropStarts (ts : List (List Char)) (s : List Char) : List Char :=
  ts.foldl (fun s t => dropStart t s) s

section
variable {s t : List Char} {ts : List (List Char)}

theorem length_dropStarts_le (ts : List (List Char)) (s : List Char) :
    (dropStarts ts s).length ≤ s.length := by
  induction ts generalizing s with
  | nil => exact Nat.le_refl _
  | cons t ts ih => exact (ih (dropStart t s)).trans (length_dropStart_le t s)

theorem dropStarts_eq_self (h : ∀ t ∈ ts, ¬t <+: s) : dropStarts ts s = s := by
  induction ts with
  | nil => rfl
  | cons t ts ih =>
    have ht := dropStart_eq_self (h t List.mem_cons_self)
    rw [dropStarts, List.foldl_cons, ht]
    exact ih fun t' ht' => h t' (List.mem_cons_of_mem t ht')

theorem not_prefix_of_length_le (ht : t ≠ []) (h : s.length ≤ (dropStart t s).length) :
    ¬t <+: s := by
  intro hp
  have hpos : 0 < t.length := List.length_pos_iff.mpr ht
  have hlen := hp.length_le
  rw [dropStart, if_pos (List.isPrefixOf_iff_prefix.mpr hp), List.length_drop] at h
  omega

theorem not_prefix_of_length_le_dropStarts (hts : [] ∉ ts)
    (h : s.length ≤ (dropStarts ts s).length) : ∀ t ∈ ts, ¬t <+: s := by
  induction ts with
  | nil => simp
  | cons t ts ih =>
    rw [dropStarts, List.foldl_cons] at h
    have ht : ¬t <+: s := by
      apply not_prefix_of_length_le
      · rintro rfl
        exact hts List.mem_cons_self
      · exact h.trans (length_dropStarts_le ts _)
    rw [dropStart_eq_self ht] at h
    intro t' ht'
    rcases List.mem_cons.mp ht' with rfl | ht'
    · exact ht
    · exact ih (fun hnil => hts (List.mem_cons_of_mem t hnil)) h t' ht'

end

def qualifiers : List (List Char) := ["const ".toList, "volatile ".toList]

structure IsBare (u : List Char) : Prop where
  first : ∀ c ∈ u.head?, ¬isBlank c
  last : ∀ c ∈ u.getLast?, ¬isBlank c
  front : ∀ w ∈ qualifiers, ¬w <+: u
  back : ∀ w ∈ backPieces, ¬w <:+ u

def endPieces : List (List Char) :=
  [['&', '&'], ['&'], " const".toList, " volatile".toList]

theorem peel_eq_dropStarts {s : List Char} (hf : ∀ c ∈ s.head?, ¬isBlank c)
    (hl : ∀ c ∈ s.getLast?, ¬isBlank c) :
    peel s = dropStarts qualifiers (dropStarts (endPieces.map List.reverse) s.reverse).reverse := by
  have hr : ∀ c ∈ s.reverse.head?, ¬isBlank c := by rwa [List.head?_reverse]
  rw [peel, peelEnd, dropWhile_eq_self hf, dropWhile_eq_self hr]
  rfl

theorem isBare_of_stuck {s : List Char} (h : ¬(peel s).length < s.length) : IsBare s := by
  have hle : s.length ≤ (peel s).length := not_lt.mp h
  obtain ⟨hf, hl⟩ := ends_of_length_le_trim (hle.trans (length_peel_le s))
  rw [peel_eq_dropStarts hf hl] at hle
  have hend : s.reverse.length ≤ (dropStarts (endPieces.map List.reverse) s.reverse).length := by
    have hfront := length_dropStarts_le qualifiers
      (dropStarts (endPieces.map List.reverse) s.reverse).reverse
    rw [List.length_reverse] at hfront
    rw [List.length_reverse]
    exact hle.trans hfront
  have hback := not_prefix_of_length_le_dropStarts (by decide) hend
  rw [dropStarts_eq_self hback, List.reverse_reverse] at hle
  have hfront := not_prefix_of_length_le_dropStarts (by decide) hle
  refine ⟨hf, hl, hfront, ?_⟩
  intro w hw hsuffix
  have hprefix : w.reverse <+: s.reverse := List.reverse_prefix.mpr hsuffix
  by_cases hspace : w = [' ']
  · obtain ⟨r, rfl⟩ := hsuffix
    rw [hspace, List.getLast?_concat] at hl
    exact hl ' ' rfl (by decide)
  · have hmem : w.reverse ∈ endPieces.map List.reverse := by
      have hall : ∀ w ∈ backPieces, w ≠ [' '] → w.reverse ∈ endPieces.map List.reverse := by decide
      exact hall w hw hspace
    exact hback _ hmem hprefix

theorem IsBare.peel_eq_self {u : List Char} (h : IsBare u) : peel u = u := by
  have hback : ∀ w ∈ endPieces.map List.reverse, ¬w <+: u.reverse := by
    intro w hw hp
    obtain ⟨v, hv, rfl⟩ := List.mem_map.mp hw
    have hsuffix : v <:+ u := List.reverse_prefix.mp hp
    have hshort : ∀ v ∈ endPieces, ∃ x ∈ backPieces, x <:+ v := by decide
    obtain ⟨x, hx, hxv⟩ := hshort v hv
    exact h.back x hx (hxv.trans hsuffix)
  rw [peel_eq_dropStarts h.first h.last, dropStarts_eq_self hback, List.reverse_reverse,
    dropStarts_eq_self h.front]

theorem isBare_bareChars (s : List Char) : IsBare (bareChars s) :=
  isBare_of_stuck (not_length_peel_peelAll_lt (normalChars s))

theorem exists_iterate_peel (s : List Char) : ∃ n, peel^[n] s = peelAll s := by
  induction s using peelAll.induct with
  | case1 s h ih =>
    obtain ⟨n, hn⟩ := ih
    exact ⟨n + 1, by rw [Function.iterate_succ_apply, hn, peelAll.eq_def s, if_pos h]⟩
  | case2 s h => exact ⟨0, (peelAll_eq_self h).symm⟩

/-! ## The pieces around a bare spelling -/

theorem exists_concat_of_mem_qualifiers : ∀ w ∈ qualifiers, ∃ v, w = v ++ [' '] := by
  intro w hw
  have hlast : ∀ w ∈ qualifiers, w.getLast? = some ' ' := by decide
  exact List.getLast?_eq_some_iff.mp (hlast w hw)

/-- Where blanks are single and none is at the start, a qualifier takes the blank behind it
along, and there is no other. -/
theorem MadeOf.qualifiers_of_fronts {v r : List Char} (hv : MadeOf frontPieces v)
    (hc : (v ++ r).IsChain Apart) (hf : ∀ c ∈ (v ++ r).head?, ¬isBlank c) :
    MadeOf qualifiers v := by
  obtain ⟨xs, hxs, rfl⟩ := hv
  refine ⟨xs, ?_, rfl⟩
  induction xs with
  | nil => simp
  | cons x xs ih =>
    have hx : x ∈ qualifiers := by
      rcases List.mem_cons.mp (hxs x List.mem_cons_self) with rfl | hx
      · exact absurd (by decide) (hf ' ' rfl)
      · exact hx
    obtain ⟨y, rfl⟩ := exists_concat_of_mem_qualifiers x hx
    have hsplit : ((y ++ [' ']) :: xs).flatten ++ r = y ++ ' ' :: (xs.flatten ++ r) := by simp
    rw [hsplit] at hc
    have htail : (' ' :: (xs.flatten ++ r)).IsChain Apart := (List.isChain_append.mp hc).2.1
    obtain ⟨hhead, hrest⟩ := List.isChain_cons.mp htail
    have hnext : ∀ c ∈ (xs.flatten ++ r).head?, ¬isBlank c :=
      fun c hmem hb => hhead c hmem ⟨by decide, hb⟩
    intro z hz
    rcases List.mem_cons.mp hz with rfl | hz
    · exact hx
    · exact ih (fun w hw => hxs w (List.mem_cons_of_mem _ hw)) hrest hnext z hz

theorem normalChars_split (s : List Char) : ∃ p q, MadeOf qualifiers p ∧ MadeOf backPieces q ∧
    normalChars s = p ++ bareChars s ++ q := by
  have hn := (isNormal_normalChars s).spaced
  obtain ⟨p, q, hp, hq, e⟩ := peelAll_split hn.blank
  have hchain : (normalChars s).IsChain Apart := hn.chain.imp fun _ _ h => h.1
  have hfirst := hn.first
  rw [e, List.append_assoc] at hchain hfirst
  exact ⟨p, q, hp.qualifiers_of_fronts hchain hfirst, hq, e⟩

/-- The bare spelling is what is left of the normal one when some rounds have taken qualifiers off
the front and qualifiers, references and blanks off the end, and nothing is left to take off. It is
a normal spelling, and its own bare spelling. -/
theorem bare_within_normal (t : String) :
    (∃ n, peel^[n] (normal t).toList = (bare t).toList) ∧
      peel (bare t).toList = (bare t).toList ∧
      (∃ p q, MadeOf ["const ".toList, "volatile ".toList] p ∧
        MadeOf [" ".toList, "&".toList, " const".toList, " volatile".toList] q ∧
        (normal t).toList = p ++ (bare t).toList ++ q) ∧
      trimmed (bare t) = bare t ∧
      (∀ w ∈ ["&", " const", " volatile"], ¬w.toList <:+ (bare t).toList) ∧
      (∀ w ∈ ["const ", "volatile "], ¬w.toList <+: (bare t).toList) ∧
      normal (bare t) = bare t ∧ bare (bare t) = bare t := by
  have hb : IsBare (bareChars t.toList) := isBare_bareChars _
  have hchars : (bare t).toList = bareChars t.toList := by rw [bare, String.toList_ofList]
  have hnormal : (normal t).toList = normalChars t.toList := by rw [normal, String.toList_ofList]
  have htrim : trimmed (bare t) = bare t := by
    rw [trimmed, hchars, trim_eq_self hb.first hb.last, bare]
  have hfixed : normal (bare t) = bare t := by
    rw [normal, hchars, normalChars_eq_self (isNormal_bareChars _), bare]
  rw [hchars, hnormal]
  refine ⟨exists_iterate_peel _, hb.peel_eq_self, normalChars_split _, htrim, ?_, ?_, hfixed,
    bare_bare t⟩
  · intro w hw
    have hall : ∀ w ∈ ["&", " const", " volatile"], w.toList ∈ backPieces := by decide
    exact hb.back _ (hall w hw)
  · intro w hw
    have hall : ∀ w ∈ ["const ", "volatile "], w.toList ∈ qualifiers := by decide
    exact hb.front _ (hall w hw)

end TemplateCensus.Spelling
