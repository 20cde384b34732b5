/-!
Blank characters. A text splits into words, the maximal runs of characters that are not blank;
trimming takes the blanks off both ends.
-/

namespace TemplateCensus.Text

/-- The white space of Unicode text: the ASCII blanks, next line, no-break space, and the spaces
and separators of the general punctuation and ideographic blocks. -/
def isBlank (c : Char) : Bool :=
  c = ' ' || ('\t' ≤ c && c ≤ '\r') || c = '\u0085' || c = '\u00a0' || c = '\u1680' ||
    ('\u2000' ≤ c && c ≤ '\u200a') || c = '\u2028' || c = '\u2029' || c = '\u202f' ||
    c = '\u205f' || c = '\u3000'

def dropEndWhile (p : Char → Bool) (s : List Char) : List Char :=
  (s.reverse.dropWhile p).reverse

def dropEndsWhile (p : Char → Bool) (s : List Char) : List Char :=
  dropEndWhile p (s.dropWhile p)

def trim (s : List Char) : List Char := dropEndsWhile isBlank s

def words : List Char → List (List Char)
  | [] => []
  | c :: cs =>
    if isBlank c then words cs
    else
      match cs.head?.any (!isBlank ·), words cs with
      | true, w :: ws => (c :: w) :: ws
      | _, ws => [c] :: ws

def dropStart (t s : List Char) : List Char :=
  if t.isPrefixOf s then s.drop t.length else s

def trimmed (s : String) : String := String.ofList (trim s.toList)

def wordsOf (s : String) : List String := (words s.toList).map String.ofList

def join (sep : String) (pieces : List String) : String := sep.intercalate pieces

end TemplateCensus.Text
