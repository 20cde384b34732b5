import TemplateCensus.Text.Blank
import TemplateCensus.Spelling.Scope

/-!
Template spellings `Name<A, B<C>>`. The name ends at the first `<`, the text ends with `>`, and
what lies between has brackets (`<>`, `()`, `[]`, `{}` counted alike) that never close more than
they opened and that end even. Arguments are the pieces between commas outside all brackets.
-/

namespace TemplateCensus.Spelling

open Text

def opensArgument (c : Char) : Bool := c = '<' || c = '(' || c = '[' || c = '\x7b'

def closesArgument (c : Char) : Bool := c = '>' || c = ')' || c = ']' || c = '\x7d'

/-- The pieces between commas at bracket count zero, starting with `depth` open brackets;
`none` when the brackets do not match up. -/
def argumentPieces (depth : Nat) : List Char → Option (List (List Char))
  | [] => if depth = 0 then some [[]] else none
  | c :: cs =>
    if opensArgument c then (argumentPieces (depth + 1) cs).map (consFirst c)
    else if closesArgument c then
      match depth with
      | 0 => none
      | d + 1 => (argumentPieces d cs).map (consFirst c)
    else if c = ',' && depth = 0 then (argumentPieces 0 cs).map ([] :: ·)
    else (argumentPieces depth cs).map (consFirst c)

def trimmedArguments (pieces : List (List Char)) : List (List Char) :=
  match pieces.map trim with
  | [[]] => []
  | args => args

def templateChars? (s : List Char) : Option (List Char × List (List Char)) :=
  let name := s.takeWhile (· ≠ '<')
  let inside := s.drop (name.length + 1)
  if name.isEmpty || inside.getLast? ≠ some '>' then none
  else (argumentPieces 0 inside.dropLast).map fun ps => (trim name, trimmedArguments ps)

def template? (s : String) : Option (String × List String) :=
  (templateChars? s.toList).map fun (n, args) => (String.ofList n, args.map String.ofList)

def splitTemplate (s : String) : String × List String × Bool :=
  match template? s with
  | some (name, args) => (name, args, true)
  | none => (s, [], false)

def templateName (s : String) : String := ((template? s).map (·.1)).getD s

end TemplateCensus.Spelling
