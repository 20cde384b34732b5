import TemplateCensus.Spelling.Normal

/-!
The bare spelling of a printed type: its normal spelling without outer `const`, `volatile` and
references. Each round peels at most one of each from the ends, and rounds repeat while the text
gets shorter.
-/

namespace TemplateCensus.Spelling

open Text

/-- What is left of the end of a text after one round, where the text is given backwards: blanks, a
reference and qualifiers come off. -/
def peelEnd (r : List Char) : List Char :=
  dropStart " volatile".toList.reverse <| dropStart " const".toList.reverse <|
    dropStart ['&'] <| dropStart ['&', '&'] <| r.dropWhile isBlank

def peel (s : List Char) : List Char :=
  dropStart "volatile ".toList <| dropStart "const ".toList <|
    (peelEnd (s.dropWhile isBlank).reverse).reverse

def peelAll (s : List Char) : List Char :=
  if (peel s).length < s.length then peelAll (peel s) else s
termination_by s.length

def bareChars (s : List Char) : List Char := peelAll (normalChars s)

def bare (s : String) : String := String.ofList (bareChars s.toList)

end TemplateCensus.Spelling
