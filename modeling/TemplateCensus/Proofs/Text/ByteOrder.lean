import Mathlib.Data.String.Basic
import Mathlib.Tactic.SplitIfs

/-! Texts are ordered by their code points. UTF-8 is made so that the bytes order texts in the same
way: a greater character has a greater byte at the first place where the two codes differ. -/

namespace TemplateCensus.Text

def bytes (s : String) : List UInt8 := s.toUTF8.data.toList

theorem bytes_eq_flatMap (s : String) : bytes s = s.toList.flatMap String.utf8EncodeChar := by
  have h : s.toByteArray = s.toList.utf8Encode := by
    conv_lhs => rw [← String.ofList_toList (s := s)]
    exact String.toByteArray_ofList
  rw [bytes, String.toUTF8_eq_toByteArray, h, List.utf8Encode, List.data_toByteArray]

theorem utf8EncodeChar_append_lt {c d : Char} (h : c < d) (x y : List UInt8) :
    String.utf8EncodeChar c ++ x < String.utf8EncodeChar d ++ y := by
  have hcd : c.val.toNat < d.val.toNat := h
  have hd : d.val.toNat < 0x110000 := by
    rcases d.valid with h | ⟨-, h⟩
    · exact h.trans (by decide)
    · exact h
  -- the code is the number in base 64, so the highest digits that differ decide
  have h₁ : c.val.toNat / 64 < d.val.toNat / 64 ∨
      c.val.toNat / 64 = d.val.toNat / 64 ∧ c.val.toNat % 64 < d.val.toNat % 64 := by omega
  have h₂ : c.val.toNat / 4096 < d.val.toNat / 4096 ∨
      c.val.toNat / 4096 = d.val.toNat / 4096 ∧
        c.val.toNat % 4096 < d.val.toNat % 4096 := by omega
  have h₃ : c.val.toNat / 262144 < d.val.toNat / 262144 ∨
      c.val.toNat / 262144 = d.val.toNat / 262144 ∧
        c.val.toNat % 262144 < d.val.toNat % 262144 := by omega
  simp only [String.utf8EncodeChar]
  split_ifs <;> simp only [List.cons_append, List.nil_append, List.cons_lt_cons_iff,
    UInt8.lt_iff_toNat_lt, ← UInt8.toNat_inj, UInt8.toNat_ofNat'] <;>
    simp (disch := omega) only [Nat.mod_eq_of_lt] <;> omega

theorem flatMap_utf8EncodeChar_lt {s t : List Char} (h : s < t) :
    s.flatMap String.utf8EncodeChar < t.flatMap String.utf8EncodeChar := by
  induction h with
  | nil =>
    next c cs =>
    rw [List.flatMap_nil, List.flatMap_cons]
    cases hc : String.utf8EncodeChar c with
    | nil => exact absurd hc String.utf8EncodeChar_ne_nil
    | cons b bs => exact List.nil_lt_cons b _
  | cons _ ih =>
    rw [List.flatMap_cons, List.flatMap_cons]
    exact List.append_left_lt ih
  | rel h =>
    rw [List.flatMap_cons, List.flatMap_cons]
    exact utf8EncodeChar_append_lt h _ _

theorem bytes_lt_bytes_iff {s t : String} : bytes s < bytes t ↔ s < t := by
  have key : ∀ {s t : String}, s < t → bytes s < bytes t := by
    intro s t h
    rw [bytes_eq_flatMap, bytes_eq_flatMap]
    exact flatMap_utf8EncodeChar_lt (String.lt_iff_toList_lt.mp h)
  refine ⟨fun h => ?_, key⟩
  rcases lt_trichotomy s t with hlt | heq | hgt
  · exact hlt
  · exact absurd (heq ▸ h) (List.lt_irrefl _)
  · exact absurd h (List.lt_asymm (key hgt))

end TemplateCensus.Text
