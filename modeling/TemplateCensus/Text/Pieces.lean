/-!
Cutting a text into pieces at a separator. There is always one piece more than there are
separators, and joining the pieces gives the text back.
-/

namespace TemplateCensus.Text

def consFirst (c : Char) : List (List Char) → List (List Char)
  | [] => [[c]]
  | p :: ps => (c :: p) :: ps

def pieces (sep : Char) : List Char → List (List Char)
  | [] => [[]]
  | c :: cs => if c = sep then [] :: pieces sep cs else consFirst c (pieces sep cs)

def linesOf (s : String) : List String := (pieces '\n' s.toList).map String.ofList

end TemplateCensus.Text
