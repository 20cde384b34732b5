import TemplateCensus.Text.Blank

/-!
The normal spelling of a printed type: single blanks between words, none behind an opening or in
front of a closing angle bracket, and no elaborated-type keyword (`class`, `struct`, `union`,
`enum`).
-/

namespace TemplateCensus.Spelling

open Text

def tighten : List Char → List Char
  | [] => []
  | '<' :: ' ' :: cs => '<' :: tighten cs
  | ' ' :: '>' :: cs => '>' :: tighten cs
  | c :: cs => c :: tighten cs

def spaced (s : List Char) : List Char :=
  tighten ([' '].intercalate (words s))

def isIdentifierChar (c : Char) : Bool := c = '_' || c.isAlphanum

def tagKeywords : List (List Char) :=
  ["class".toList, "struct".toList, "union".toList, "enum".toList]

def afterTag? (s : List Char) : Option (List Char) :=
  tagKeywords.findSome? fun kw =>
    if (kw ++ [' ']).isPrefixOf s then some (s.drop (kw.length + 1)) else none

theorem length_of_afterTag? {s r : List Char} (h : afterTag? s = some r) :
    r.length < s.length := by
  obtain ⟨kw, hkw, hr⟩ := List.exists_of_findSome?_eq_some h
  split at hr
  · next hp =>
    obtain ⟨t, rfl⟩ := List.isPrefixOf_iff_prefix.1 hp
    have : r = (kw ++ [' '] ++ t).drop (kw.length + 1) := by simpa using hr.symm
    subst this
    simp
    omega
  · simp at hr

/-- Removes every keyword that starts a word and is followed by a blank, with that blank.
`fresh` says that a word can start here. -/
def dropTags (fresh : Bool) : List Char → List Char
  | [] => []
  | c :: cs =>
    match _h : if fresh then afterTag? (c :: cs) else none with
    | some rest => dropTags true rest
    | none => c :: dropTags (!isIdentifierChar c) cs
termination_by s => s.length
decreasing_by
  · refine length_of_afterTag? (s := c :: cs) ?_
    cases fresh <;> simp_all
  · simp

def normalChars (s : List Char) : List Char := dropTags true (spaced s)

def normal (s : String) : String := String.ofList (normalChars s.toList)

end TemplateCensus.Spelling
