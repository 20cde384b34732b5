import Mathlib.Data.List.Basic
import TemplateCensus.Source.Location

/-! The text of a location tells its file, line and column: numbers have no colon in them, so the
last two colons are the separators, whatever the file is called. -/

namespace TemplateCensus

namespace Text

theorem natDecimal_inj {m n : Nat} (h : natDecimal m = natDecimal n) : m = n := by
  have hdigits : Nat.toDigits 10 m = Nat.toDigits 10 n := String.ofList_inj.mp h
  have hvalue := congrArg (Nat.ofDigitChars 10 · 0) hdigits
  simpa only [Nat.ofDigitChars_ten_toDigits] using hvalue

theorem isDigit_of_mem_natDecimal {n : Nat} {c : Char} (h : c ∈ (natDecimal n).toList) :
    c.isDigit := by
  rw [natDecimal, String.toList_ofList] at h
  exact Nat.isDigit_of_mem_toDigits (by decide) (by decide) h

theorem decimal_inj {m n : Int} (h : decimal m = decimal n) : m = n := by
  have hsign : ∀ a b : Nat, natDecimal a ≠ "-" ++ natDecimal b := by
    intro a b hab
    have hminus : '-' ∈ (natDecimal a).toList := by
      rw [hab]
      simp
    exact absurd (isDigit_of_mem_natDecimal hminus) (by decide)
  cases m with
  | ofNat m =>
    cases n with
    | ofNat n => exact congrArg Int.ofNat (natDecimal_inj h)
    | negSucc n => exact absurd h (hsign m (n + 1))
  | negSucc m =>
    cases n with
    | ofNat n => exact absurd h.symm (hsign n (m + 1))
    | negSucc n =>
      have htail : natDecimal (m + 1) = natDecimal (n + 1) := by simpa [decimal] using h
      have hsucc := natDecimal_inj htail
      exact congrArg Int.negSucc (Nat.succ_inj.mp hsucc)

theorem colon_notMem_decimal (n : Int) : ':' ∉ (decimal n).toList := by
  have hnat : ∀ m, ':' ∉ (natDecimal m).toList := fun m h =>
    absurd (isDigit_of_mem_natDecimal h) (by decide)
  cases n with
  | ofNat n => exact hnat n
  | negSucc n =>
    have hneg : (decimal (.negSucc n)).toList = '-' :: (natDecimal (n + 1)).toList := by
      simp [decimal]
    rw [hneg, List.mem_cons, not_or]
    exact ⟨by decide, hnat (n + 1)⟩

end Text

theorem eq_of_append_cons {c : Char} {p q s t : List Char} (hs : c ∉ s) (ht : c ∉ t)
    (h : p ++ c :: s = q ++ c :: t) : p = q ∧ s = t := by
  rcases List.append_eq_append_iff.mp h with ⟨as, rfl, has⟩ | ⟨bs, rfl, hbs⟩
  · cases as with
    | nil => exact ⟨by simp, (List.cons_eq_cons.mp has).2⟩
    | cons a as =>
      have hmem : c ∈ s := by
        rw [(List.cons_eq_cons.mp has).2]
        simp
      exact absurd hmem hs
  · cases bs with
    | nil => exact ⟨by simp, (List.cons_eq_cons.mp hbs).2.symm⟩
    | cons b bs =>
      have hmem : c ∈ t := by
        rw [(List.cons_eq_cons.mp hbs).2]
        simp
      exact absurd hmem ht

namespace Location

/-- Two locations at one place: whoever includes the file does not matter. -/
def SamePlace (l m : Location) : Prop := l.file = m.file ∧ l.line = m.line ∧ l.column = m.column

instance (l m : Location) : Decidable (l.SamePlace m) :=
  inferInstanceAs (Decidable (_ ∧ _ ∧ _))

theorem toList_text (l : Location) : l.text.toList =
    (l.file.toList ++ ':' :: (Text.decimal l.line).toList) ++ ':' ::
      (Text.decimal l.column).toList := by
  simp [text]

theorem text_eq_text_iff {l m : Location} : l.text = m.text ↔ l.SamePlace m := by
  constructor
  · intro h
    have hchars := congrArg String.toList h
    rw [toList_text, toList_text] at hchars
    obtain ⟨hfront, hcolumn⟩ :=
      eq_of_append_cons (Text.colon_notMem_decimal _) (Text.colon_notMem_decimal _) hchars
    obtain ⟨hfile, hline⟩ :=
      eq_of_append_cons (Text.colon_notMem_decimal _) (Text.colon_notMem_decimal _) hfront
    exact ⟨String.toList_inj.mp hfile, Text.decimal_inj (String.toList_inj.mp hline),
      Text.decimal_inj (String.toList_inj.mp hcolumn)⟩
  · rintro ⟨hfile, hline, hcolumn⟩
    rw [text, text, hfile, hline, hcolumn]

theorem textOf_eq_text_iff {o : Option Location} {l : Location} :
    textOf o = l.text ↔ ∃ m, o = some m ∧ l.SamePlace m := by
  cases o with
  | none =>
    have hcolon : ':' ∈ l.text.toList := by
      rw [toList_text]
      simp
    have hne : textOf none ≠ l.text := by
      intro h
      rw [← h] at hcolon
      exact absurd hcolon (by decide)
    simp [hne]
  | some m =>
    rw [textOf, eq_comm, text_eq_text_iff]
    simp

end Location

end TemplateCensus
