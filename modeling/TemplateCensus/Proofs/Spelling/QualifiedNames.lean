import TemplateCensus.Proofs.Spelling.Scope

/-! Qualified names, cut and joined. A `::` separates two parts where as many brackets have closed
as have opened, whatever happened before, so the parts of a name can be told by counting alone. -/

namespace TemplateCensus.Spelling
open Text

/-! ## Counting brackets -/

def bracketCount (opening closing s : List Char) : Int :=
  (s.countP (opening.contains ·) : Int) - s.countP (closing.contains ·)

def scopeCount (s : List Char) : Int := bracketCount ['<', '(', '['] ['>', ')', ']'] s

theorem bracketCount_append (opening closing s t : List Char) :
    bracketCount opening closing (s ++ t) =
      bracketCount opening closing s + bracketCount opening closing t := by
  simp only [bracketCount, List.countP_append]
  omega

theorem scopeCount_cons (c : Char) (s : List Char) :
    scopeCount (c :: s) = scopeWeight c + scopeCount s := by
  have hone : scopeCount [c] = scopeWeight c := by
    simp only [scopeCount, bracketCount, scopeWeight, List.countP_singleton]
    grind
  have happ : scopeCount ([c] ++ s) = scopeCount [c] + scopeCount s := bracketCount_append _ _ _ _
  rwa [hone] at happ

/-! ## Components of a qualified name -/

/-- Does a text, read from a bracket count on, end even and have no `::` at an even place? -/
structure IsPart (depth : Int) (p : List Char) : Prop where
  even : depth + scopeCount p = 0
  whole : ∀ q r, p = q ++ ':' :: ':' :: r → depth + scopeCount q ≠ 0

theorem IsPart.tail {depth : Int} {c : Char} {p : List Char} (h : IsPart depth (c :: p)) :
    IsPart (depth + scopeWeight c) p := by
  constructor
  · have heven := h.even
    rw [scopeCount_cons] at heven
    omega
  · intro q r hqr
    have hwhole := h.whole (c :: q) r (by rw [hqr]; rfl)
    rw [scopeCount_cons] at hwhole
    omega

theorem scopePieces_cons_of_no_separator {depth : Int} {c : Char} {cs : List Char}
    (h : ¬(depth = 0 ∧ c = ':' ∧ cs.head? = some ':')) :
    scopePieces depth (c :: cs) = consFirst c (scopePieces (depth + scopeWeight c) cs) := by
  cases cs with
  | nil => rfl
  | cons d cs =>
    rw [scopePieces, if_neg]
    simpa [and_assoc] using h

theorem scopePieces_append {depth : Int} {p r : List Char} (hp : IsPart depth p)
    (hcolon : p.getLast? = some ':' → r.head? ≠ some ':') :
    scopePieces depth (p ++ r) = p.foldr consFirst (scopePieces 0 r) := by
  induction p generalizing depth with
  | nil =>
    have hzero : depth = 0 := by simpa [scopeCount, bracketCount] using hp.even
    rw [hzero]
    rfl
  | cons c p ih =>
    -- two colons at an even place would lie in the part, or the second one at the start of the rest
    have hno : ¬(depth = 0 ∧ c = ':' ∧ (p ++ r).head? = some ':') := by
      rintro ⟨rfl, rfl, hnext⟩
      cases p with
      | nil => exact hcolon rfl hnext
      | cons d p =>
        obtain rfl : d = ':' := by simpa using hnext
        exact hp.whole [] p rfl rfl
    have hrest : p.getLast? = some ':' → r.head? ≠ some ':' := by
      intro hlast
      apply hcolon
      rw [List.getLast?_cons, hlast]
      rfl
    rw [List.cons_append, scopePieces_cons_of_no_separator hno, ih hp.tail hrest, List.foldr_cons]

theorem IsPart.isComponent {p : List Char} (hp : IsPart 0 p) (hcolon : p.getLast? ≠ some ':') :
    IsComponent p := by
  intro r
  exact scopePieces_append hp fun hlast => absurd hlast hcolon

theorem scopePieces_of_isPart {p : List Char} (hp : IsPart 0 p) : scopePieces 0 p = [p] := by
  have happ := scopePieces_append (r := []) hp fun _ => nofun
  rw [List.append_nil, scopePieces, foldr_consFirst, List.append_nil] at happ
  exact happ

/-- Cutting and joining undo each other: whatever a name is cut into gives it back, and parts that
end even, have no `::` at an even place and do not end in a colon, except for the last one, are
found again. -/
theorem scopeParts_inverse_qualify :
    (∀ s : String, scopeParts s ≠ [] ∧ qualify (scopeParts s) = s) ∧
    ∀ parts : List String, parts ≠ [] →
      (∀ p ∈ parts, scopeCount p.toList = 0 ∧
        ∀ q r, p.toList = q ++ ':' :: ':' :: r → scopeCount q ≠ 0) →
      (∀ p ∈ parts.dropLast, p.toList.getLast? ≠ some ':') →
      scopeParts (qualify parts) = parts := by
  constructor
  · intro s
    have hne : scopeParts s ≠ [] := by simpa [scopeParts] using scopePieces_ne_nil 0 s.toList
    exact ⟨hne, qualify_scopeParts s⟩
  · intro parts hne hparts hcolon
    obtain ⟨ps, q, rfl⟩ : ∃ ps q, parts = ps ++ [q] :=
      ⟨_, _, (List.dropLast_concat_getLast hne).symm⟩
    rw [List.dropLast_concat] at hcolon
    have hpart : ∀ p ∈ ps ++ [q], IsPart 0 p.toList := by
      intro p hp
      obtain ⟨heven, hwhole⟩ := hparts p hp
      exact ⟨by omega, fun q r hqr => by have := hwhole q r hqr; omega⟩
    have hlast := scopePieces_of_isPart (hpart q (by simp))
    have hcomponent : ∀ p ∈ ps.map String.toList, IsComponent p := by
      intro p hp
      obtain ⟨t, ht, rfl⟩ := List.mem_map.mp hp
      exact (hpart t (List.mem_append_left _ ht)).isComponent (hcolon t ht)
    have hcut := scopePieces_intercalate_concat hcomponent q.toList
    have htext : (qualify (ps ++ [q])).toList =
        [':', ':'].intercalate (ps.map String.toList ++ [q.toList]) := by
      have h : (qualify (ps ++ [q])).toList = _ := String.toList_intercalate
      rwa [List.map_append] at h
    rw [scopeParts, htext, hcut, hlast]
    simp

theorem forall_split_of_forall_take {P : List Char → Prop} {p : List Char} (sep : List Char)
    (h : ∀ n ≤ p.length, sep <+: p.drop n → P (p.take n)) : ∀ q r, p = q ++ (sep ++ r) → P q := by
  rintro q r rfl
  have hq := h q.length (by simp) (by simp)
  rwa [List.take_left] at hq

theorem scopeParts_inverse_qualify_uneven :
    scopeParts "a>b<::f(x::y)::::c:" = ["a>b<", "f(x::y)", "", "c:"] := by
  have hjoined : qualify ["a>b<", "f(x::y)", "", "c:"] = "a>b<::f(x::y)::::c:" := by decide +kernel
  have hparts : ∀ p ∈ ["a>b<", "f(x::y)", "", "c:"], scopeCount p.toList = 0 ∧
      ∀ n ≤ p.toList.length, [':', ':'] <+: p.toList.drop n →
        scopeCount (p.toList.take n) ≠ 0 := by decide +kernel
  rw [← hjoined]
  apply scopeParts_inverse_qualify.2 _ (by simp)
  · intro p hp
    exact ⟨(hparts p hp).1, forall_split_of_forall_take [':', ':'] (hparts p hp).2⟩
  · decide +kernel

end TemplateCensus.Spelling
