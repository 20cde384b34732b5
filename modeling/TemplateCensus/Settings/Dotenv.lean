import TemplateCensus.Text.Blank
import TemplateCensus.Keyed

/-!
Files of environment variables. A statement is a name, `=` or `:`, and a value: up to the end of the
line, or between quotes and then over several lines. Values may refer to variables that the file has
set so far, unless they are in single quotes. A file that does not parse sets nothing.
-/

namespace TemplateCensus.Dotenv

open Text

def isSpace (c : Char) : Bool :=
  c = '\t' || c = '\x0b' || c = '\x0c' || c = '\r' || c = ' ' || c = '\u0085' || c = '\u00a0'

/-- Names are checked byte by byte, each byte taken for a character of its own: letters, numbers,
blanks, the point and the underscore are allowed. -/
def isNameByte (b : UInt8) : Bool :=
  let n := b.toNat
  let c := Char.ofNat n
  c.isAlphanum || c = '_' || c = '.' || isSpace c || n = 0xaa || n = 0xb5 || n = 0xba ||
    (0xc0 ≤ n && n ≠ 0xd7 && n ≠ 0xf7) || n = 0xb2 || n = 0xb3 || n = 0xb9 ||
    (0xbc ≤ n && n ≤ 0xbe)

def isNameChar (c : Char) : Bool := (String.utf8EncodeChar c).all isNameByte

def unixLines : List Char → List Char
  | [] => []
  | '\r' :: '\n' :: cs => '\n' :: unixLines cs
  | c :: cs => c :: unixLines cs

def nextStatement : (fuel : Nat) → List Char → List Char
  | 0, _ => []
  | fuel + 1, cs =>
    match cs.dropWhile isBlank with
    | '#' :: rest => nextStatement fuel (rest.dropWhile (· ≠ '\n'))
    | cs => cs

def afterExport (cs : List Char) : List Char :=
  let word := "export".toList
  if word.isPrefixOf cs && (cs.drop word.length).head?.any isSpace then
    (cs.drop word.length).dropWhile isSpace
  else cs

def name? (cs : List Char) : Option (String × List Char) :=
  let isStop (c : Char) : Bool := c = '=' || c = ':'
  let name := cs.takeWhile (!isStop ·)
  if cs.isEmpty then none
  else if name.all isNameChar then
    match cs.drop name.length with
    | _ :: rest => some (String.ofList (dropEndWhile isBlank name), rest.dropWhile isSpace)
    -- a text that ends before a separator is all value
    | [] => some ("", cs.dropWhile isSpace)
  else none

def reference (cs : List Char) : List Char × String × List Char :=
  let paren := cs.takeWhile (· = '(') |>.take 1
  let cs := cs.drop paren.length
  let brace := cs.takeWhile (· = '\x7b') |>.take 1
  let cs := cs.drop brace.length
  let name := cs.takeWhile fun c => c.isUpper || c.isDigit || c = '_'
  let cs := cs.drop name.length
  let close := cs.takeWhile (· = '\x7d') |>.take 1
  (paren ++ brace ++ name ++ close, String.ofList name, cs.drop close.length)

theorem length_reference (cs : List Char) : (reference cs).2.2.length ≤ cs.length := by
  simp only [reference, List.length_drop]
  omega

/-- Replaces references by the values of their variables. A backslash in front of a dollar is taken
off instead, and a reference without a name stays. -/
def expand (vars : Keyed String) (cs : List Char) : List Char :=
  match cs with
  | [] => []
  | '\\' :: '$' :: cs =>
    let r := reference cs
    '$' :: r.1 ++ expand vars r.2.2
  | '$' :: cs =>
    let r := reference cs
    (if r.2.1 = "" then '$' :: r.1 else ((vars.find? r.2.1).getD "").toList) ++ expand vars r.2.2
  | c :: cs => c :: expand vars cs
termination_by cs.length
decreasing_by
  · have := length_reference cs
    simp; omega
  · have := length_reference cs
    simp; omega
  · simp

def lineEscapes : List Char → List Char
  | [] => []
  | '\\' :: '\n' :: cs => '\\' :: '\n' :: lineEscapes cs
  | '\\' :: 'n' :: cs => '\n' :: lineEscapes cs
  | '\\' :: 'r' :: cs => '\r' :: lineEscapes cs
  | '\\' :: c :: cs => '\\' :: c :: lineEscapes cs
  | c :: cs => c :: lineEscapes cs

def otherEscapes : List Char → List Char
  | [] => []
  | '\\' :: '$' :: cs => '\\' :: '$' :: otherEscapes cs
  | '\\' :: c :: cs => c :: otherEscapes cs
  | c :: cs => c :: otherEscapes cs

def beforeComment (line : List Char) : List Char :=
  -- from the end: the last `#` behind a blank starts a comment
  let rec cut : List Char → List Char
    | '#' :: c :: rest => if isSpace c then c :: rest else cut (c :: rest)
    | _ :: rest => cut rest
    | [] => []
  match cut line.reverse with
  | [] => line
  | kept => kept.reverse

def quotedBody (q prev : Char) (acc : List Char) : List Char → Option (List Char × List Char)
  | [] => none
  | c :: cs =>
    if c = q && prev ≠ '\\' then some (acc.reverse, cs) else quotedBody q c (c :: acc) cs

def value? (vars : Keyed String) (cs : List Char) : Option (String × List Char) :=
  match cs with
  | '\x27' :: rest =>
    (quotedBody '\x27' '\x27' [] rest).map fun (body, rest) =>
      (String.ofList (dropEndsWhile (· = '\x27') body), rest)
  | '\x22' :: rest =>
    (quotedBody '\x22' '\x22' [] rest).map fun (body, rest) =>
      (String.ofList (expand vars (otherEscapes (lineEscapes
        (dropEndsWhile (· = '\x22') body)))), rest)
  | cs =>
    let isEnd (c : Char) : Bool := c = '\n' || c = '\r'
    some (String.ofList (expand vars (dropEndsWhile isSpace
      (beforeComment (cs.takeWhile (!isEnd ·))))), cs.dropWhile (!isEnd ·))

def statements? : (fuel : Nat) → Keyed String → List Char → Option (Keyed String)
  | 0, _, _ => none
  | fuel + 1, vars, cs =>
    match nextStatement (cs.length + 1) cs with
    | [] => some vars
    | cs =>
      match name? (afterExport (cs.dropWhile isSpace)) with
      | none => none
      | some (name, cs) =>
        match value? vars cs with
        | none => none
        | some (value, cs) => statements? fuel (vars.insert name value) cs

def parse? (text : String) : Option (Keyed String) :=
  let cs := unixLines text.toList
  statements? (cs.length + 1) .empty cs

/-- The environment with the variables of a file. Variables that are set stay as they are, and a
name or value that no environment can hold is passed over. -/
def extend (env vars : Keyed String) : Keyed String :=
  vars.entries.foldl (fun acc (k, v) =>
    if k = "" || env.contains k || v.toList.contains '\x00' then acc else acc.insert k v) env

end TemplateCensus.Dotenv
