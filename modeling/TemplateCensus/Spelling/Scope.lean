import TemplateCensus.Text.Pieces

/-!
Qualified names. A name splits at the `::` that stand outside all brackets, where `<`, `(` and `[`
open and `>`, `)` and `]` close. Brackets need not match: only the running count matters.
-/

namespace TemplateCensus.Spelling

open Text

def scopeWeight (c : Char) : Int :=
  if c = '<' || c = '(' || c = '[' then 1
  else if c = '>' || c = ')' || c = ']' then -1
  else 0

def scopePieces (depth : Int) : List Char → List (List Char)
  | [] => [[]]
  | [c] => [[c]]
  | c :: d :: cs =>
    if depth = 0 && c = ':' && d = ':' then [] :: scopePieces depth cs
    else consFirst c (scopePieces (depth + scopeWeight c) (d :: cs))

def scopeParts (s : String) : List String :=
  (scopePieces 0 s.toList).map String.ofList

def qualify (parts : List String) : String := "::".intercalate parts

end TemplateCensus.Spelling
