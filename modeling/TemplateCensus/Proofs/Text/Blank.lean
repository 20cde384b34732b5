import Mathlib.Data.List.Basic
import Mathlib.Data.List.TakeWhile
import TemplateCensus.Text.Blank

/-! Trimming and taking off a start: what is left is part of the text, and a text without blanks at
its ends is left alone. -/

namespace TemplateCensus.Text

theorem dropWhile_eq_self {p : Char → Bool} {s : List Char} (h : ∀ c ∈ s.head?, ¬p c) :
    s.dropWhile p = s := by
  cases s with
  | nil => rfl
  | cons c cs => rw [List.dropWhile_cons_of_neg (h c rfl)]

theorem head?_dropWhile_not {p : Char → Bool} (s : List Char) :
    ∀ c ∈ (s.dropWhile p).head?, ¬p c := by
  intro c hc
  have h := List.head?_dropWhile_not p s
  rw [hc] at h
  simpa using h

theorem trim_eq_self {s : List Char} (hf : ∀ c ∈ s.head?, ¬isBlank c)
    (hl : ∀ c ∈ s.getLast?, ¬isBlank c) : trim s = s := by
  have hr : ∀ c ∈ s.reverse.head?, ¬isBlank c := by rwa [List.head?_reverse]
  rw [trim, dropEndsWhile, dropEndWhile, dropWhile_eq_self hf, dropWhile_eq_self hr,
    List.reverse_reverse]

theorem trim_eq_nil_iff {s : List Char} : trim s = [] ↔ ∀ c ∈ s, isBlank c := by
  rw [trim, dropEndsWhile, dropEndWhile, List.reverse_eq_nil_iff, List.dropWhile_eq_nil_iff]
  simp only [List.mem_reverse]
  constructor
  · intro h c hc
    rw [← List.takeWhile_append_dropWhile (p := isBlank) (l := s), List.mem_append] at hc
    rcases hc with hc | hc
    · exact List.mem_takeWhile_imp hc
    · exact h c hc
  · intro h c hc
    exact h c ((List.dropWhile_sublist isBlank).subset hc)

theorem ends_trim (s : List Char) :
    (∀ c ∈ (trim s).head?, ¬isBlank c) ∧ ∀ c ∈ (trim s).getLast?, ¬isBlank c := by
  rw [trim, dropEndsWhile, dropEndWhile]
  constructor
  · obtain ⟨r, hr⟩ := List.dropWhile_suffix (l := (s.dropWhile isBlank).reverse) isBlank
    intro c hc
    have hsplit := congrArg List.reverse hr
    rw [List.reverse_append, List.reverse_reverse] at hsplit
    apply head?_dropWhile_not s c
    rw [← hsplit, List.head?_append, hc]
    rfl
  · rw [List.getLast?_reverse]
    exact head?_dropWhile_not _

theorem ends_of_length_le_trim {s : List Char} (h : s.length ≤ (trim s).length) :
    (∀ c ∈ s.head?, ¬isBlank c) ∧ ∀ c ∈ s.getLast?, ¬isBlank c := by
  have hfront := List.dropWhile_suffix (l := s) isBlank
  have hback := List.dropWhile_suffix (l := (s.dropWhile isBlank).reverse) isBlank
  have hlen := hback.length_le
  rw [trim, dropEndsWhile, dropEndWhile, List.length_reverse] at h
  rw [List.length_reverse] at hlen
  have hs : s.dropWhile isBlank = s := hfront.eq_of_length_le (Nat.le_trans h hlen)
  rw [hs] at h hback
  have hr : s.reverse.dropWhile isBlank = s.reverse :=
    hback.eq_of_length_le (by rwa [List.length_reverse])
  constructor
  · rw [← hs]
    exact head?_dropWhile_not s
  · rw [← List.head?_reverse, ← hr]
    exact head?_dropWhile_not s.reverse

theorem length_dropStart_le (t s : List Char) : (dropStart t s).length ≤ s.length := by
  unfold dropStart
  split
  · exact (List.drop_suffix _ _).length_le
  · exact Nat.le_refl _

theorem eq_append_dropStart (t s : List Char) :
    s = t ++ dropStart t s ∨ s = dropStart t s := by
  unfold dropStart
  split
  · next h =>
    obtain ⟨r, rfl⟩ := List.isPrefixOf_iff_prefix.mp h
    exact .inl (by simp)
  · exact .inr rfl

end TemplateCensus.Text
