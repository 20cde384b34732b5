import TemplateCensus.Text.Quoted

/-!
The words of a command line as a shell splits it, without any expansion.

A backslash takes the next character literally, except inside single quotes. Blanks end a word
unless they are inside quotes, backquotes or `$(…)`. Quotes are dropped, and a closed pair makes a
word even when nothing is inside; backquotes and parentheses are kept. A character that ends or
redirects a command ends the line. Whatever is still open at the end makes the line invalid.
-/

namespace TemplateCensus.Command

/-- The splitter between two characters. `done` are the finished words and `word` the characters of
the current one, both last first; `begun` says that there is a current word, even an empty one. -/
structure Splitter where
  done : List (List Char) := []
  word : List Char := []
  begun : Bool := false
  escaped : Bool := false
  single : Bool := false
  double : Bool := false
  back : Bool := false
  paren : Bool := false
  deriving DecidableEq, Repr

namespace Splitter

def isSpace (c : Char) : Bool := c = ' ' || c = '\t' || c = '\r' || c = '\n'

def endsCommand (c : Char) : Bool := c = ';' || c = '&' || c = '|' || c = '<' || c = '>'

def isQuoting (s : Splitter) : Bool := s.single || s.double || s.back || s.paren

def take (s : Splitter) (c : Char) : Splitter := { s with word := c :: s.word, begun := true }

def flush (s : Splitter) : Splitter :=
  if s.begun then { s with done := s.word.reverse :: s.done, word := [], begun := false } else s

inductive Step where
  | next (s : Splitter)
  | stop (s : Splitter)
  | invalid

/-- The number of a redirected stream is no word. -/
def dropStream (s : Splitter) (c : Char) : Splitter :=
  if c = '>' && s.word.getLast?.any Char.isDigit then { s with begun := false } else s

def step (s : Splitter) (c : Char) : Step :=
  if s.escaped then .next { s.take c with escaped := false }
  else if c = '\\' then
    if s.single then .next { s with word := c :: s.word } else .next { s with escaped := true }
  else if isSpace c then
    if s.isQuoting then .next { s with word := c :: s.word } else .next s.flush
  else if c = '\x60' && !s.single && !s.double && !s.paren then
    .next { s.take c with back := !s.back }
  else if c = ')' && !s.single && !s.double && !s.back then
    .next { s.take c with paren := !s.paren }
  else if c = '(' && !s.single && !s.double && !s.back then
    if !s.paren && s.word.head? = some '$' then
      .next { s with word := c :: s.word, paren := true }
    else .invalid
  else if c = '\x22' && !s.single && !s.paren then
    .next { s with begun := s.begun || s.double, double := !s.double }
  else if c = '\x27' && !s.double && !s.paren then
    .next { s with begun := s.begun || s.single, single := !s.single }
  else if endsCommand c && !s.isQuoting then .stop (s.dropStream c)
  else .next (s.take c)

def finish (s : Splitter) : Option (List (List Char)) :=
  if s.escaped || s.isQuoting then none else some s.flush.done.reverse

def run (s : Splitter) : List Char → Option (List (List Char))
  | [] => s.finish
  | c :: cs =>
    match s.step c with
    | .next s => s.run cs
    | .stop s => s.finish
    | .invalid => none

end Splitter

def words? (line : String) : Option (List String) :=
  (Splitter.run {} line.toList).map (·.map String.ofList)

def invalidLine (line : String) : String :=
  "failed to split compile command " ++ Text.quote line ++ ": invalid command line string"

/-- A character inside single quotes. A quote ends them, stands alone behind a backslash, and begins
them again. -/
def quoteChar (c : Char) : List Char :=
  if c = '\x27' then ['\x27', '\\', '\x27', '\x27'] else [c]

def quoteWord (word : String) : String :=
  String.ofList ('\x27' :: word.toList.flatMap quoteChar ++ ['\x27'])

def quoteLine (words : List String) : String := " ".intercalate (words.map quoteWord)

end TemplateCensus.Command
