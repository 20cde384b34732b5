import TemplateCensus.Toml.Strings
import TemplateCensus.Toml.Numbers
import TemplateCensus.Text.Blank

/-!
The statements of a TOML document, as they are written: headers of tables and of arrays of tables,
and assignments to dotted keys. What they mean together is the matter of `Toml.Table`.
-/

namespace TemplateCensus.Toml

abbrev Key := List String

inductive Expr where
  | text (s : String)
  | integer (n : Int)
  | other
  | array (items : List Expr)
  | inline (entries : List (Key × Expr))
  deriving Inhabited, Repr

inductive Statement where
  | table (name : Key)
  | tables (name : Key)
  | assign (key : Key) (value : Expr)
  deriving Repr

/-- Control characters have no place in a document, apart from tabs and line ends, nor has the
character that stands for undecodable bytes; a carriage return stands only in front of a line feed.
-/
def isClean : List Char → Bool
  | [] => true
  | c :: cs =>
    (if c = '\r' then cs.head? = some '\n'
      else c = '\t' || c = '\n' || (' ' ≤ c && c ≠ '\x7f' && c ≠ '\ufffd')) && isClean cs

def skipSpace (cs : List Char) : List Char := cs.dropWhile isSpace

def skipComment (cs : List Char) : List Char := cs.dropWhile (!isNewline ·)

def keyPart? (e : Edition) : List Char → Option (String × List Char)
  | '\x22' :: cs => basicString? e [] cs
  | '\x27' :: cs => literalString? [] cs
  | cs =>
    let name := cs.takeWhile (isBareKeyChar e)
    if name.isEmpty then none
    else some (String.ofList name, cs.dropWhile (isBareKeyChar e))

def key? (e : Edition) (stop : Char) : (fuel : Nat) → List Char → Option (Key × List Char)
  | 0, _ => none
  | fuel + 1, cs => do
    let (part, cs) ← keyPart? e (skipSpace cs)
    match skipSpace cs with
    | [] => none
    | c :: cs =>
      if c = '.' then
        let (key, cs) ← key? e stop fuel cs
        some (part :: key, cs)
      else if c = stop then some ([part], cs)
      else none

def based? (base : Nat) (cs : List Char) : Option (Expr × List Char) :=
  let isDigit (c : Char) : Bool := c = '_' || (Text.digit? c).any (· < base)
  if cs.head? = some '_' then none
  else (basedInteger? base (cs.takeWhile isDigit)).map fun n => (.integer n, cs.dropWhile isDigit)

def decimal? (negative : Bool) (cs : List Char) : Option (Expr × List Char) :=
  let isDigit (c : Char) : Bool := c = '_' || c.isDigit
  let isFloatChar (c : Char) : Bool :=
    isDigit c || c = '.' || c = '-' || c = '+' || c = 'e' || c = 'E'
  match cs.dropWhile isDigit with
  | c :: _ =>
    if c = '.' || c = 'e' || c = 'E' then
      if isFloat (cs.takeWhile isFloatChar) then some (.other, cs.dropWhile isFloatChar) else none
    else (decimalInteger? negative (cs.takeWhile isDigit)).map fun n =>
      (.integer n, cs.dropWhile isDigit)
  | [] => (decimalInteger? negative cs).map fun n => (.integer n, [])

def numberOrDate? (e : Edition) (cs : List Char) : Option (Expr × List Char) :=
  match cs with
  | '0' :: 'x' :: ds => based? 16 ds
  | '0' :: 'o' :: ds => based? 8 ds
  | '0' :: 'b' :: ds => based? 2 ds
  -- a date or a time has more than a zero in front of its first separator
  | '0' :: ':' :: _ => none
  | '0' :: '-' :: _ => none
  | cs =>
    match cs.dropWhile Char.isDigit with
    | c :: _ =>
      if c = '-' || c = ':' then
        let isDateChar (c : Char) : Bool := c.isDigit || "-:Tt .Zz+".toList.contains c
        if isDate e (Text.trim (cs.takeWhile isDateChar)) then
          some (.other, cs.dropWhile isDateChar)
        else none
      else decimal? false cs
    | [] => decimal? false cs

def signed? (negative : Bool) (cs : List Char) : Option (Expr × List Char) :=
  match cs with
  | 'i' :: 'n' :: 'f' :: cs => some (.other, cs)
  | 'n' :: 'a' :: 'n' :: cs => some (.other, cs)
  | c :: _ => if c.isDigit then decimal? negative cs else none
  | [] => none

def simple? (e : Edition) (cs : List Char) : Option (Expr × List Char) :=
  match cs with
  | 't' :: 'r' :: 'u' :: 'e' :: cs => some (.other, cs)
  | 'f' :: 'a' :: 'l' :: 's' :: 'e' :: cs => some (.other, cs)
  | 'i' :: 'n' :: 'f' :: cs => some (.other, cs)
  | 'n' :: 'a' :: 'n' :: cs => some (.other, cs)
  | '+' :: cs => signed? false cs
  | '-' :: cs => signed? true cs
  | [] => none
  | c :: _ =>
    if c.isDigit then numberOrDate? e cs
    else (string? e cs).map fun (s, rest) => (.text s, rest)

def skipLines : (fuel : Nat) → List Char → List Char
  | 0, cs => cs
  | fuel + 1, cs =>
    match cs with
    | [] => []
    | c :: cs =>
      if isSpace c || isNewline c then skipLines fuel cs
      else if c = '#' then skipLines fuel (skipComment cs)
      else c :: cs

def skipInside (e : Edition) (fuel : Nat) (cs : List Char) : List Char :=
  if e = .v11 then skipLines fuel cs else skipSpace cs

mutual

def value? (e : Edition) : (fuel : Nat) → List Char → Option (Expr × List Char)
  | 0, _ => none
  | fuel + 1, cs =>
    match cs with
    | '[' :: cs => (items? e fuel [] cs).map fun (vs, rest) => (.array vs, rest)
    | '\x7b' :: cs => (entries? e fuel true [] cs).map fun (es, rest) => (.inline es, rest)
    | cs => simple? e cs

def items? (e : Edition) : (fuel : Nat) → (done : List Expr) → List Char →
    Option (List Expr × List Char)
  | 0, _, _ => none
  | fuel + 1, done, cs =>
    match skipLines fuel cs with
    | ']' :: rest => some (done.reverse, rest)
    | cs =>
      match value? e fuel cs with
      | none => none
      | some (v, cs) =>
        match skipLines fuel cs with
        | ',' :: rest => items? e fuel (v :: done) rest
        | ']' :: rest => some ((v :: done).reverse, rest)
        | _ => none

def entries? (e : Edition) : (fuel : Nat) → (first : Bool) → (done : List (Key × Expr)) →
    List Char → Option (List (Key × Expr) × List Char)
  | 0, _, _, _ => none
  | fuel + 1, first, done, cs =>
    match first || e = .v11, skipInside e fuel cs with
    | true, '\x7d' :: rest => some (done.reverse, rest)
    | _, cs =>
      match key? e '=' fuel cs with
      | none => none
      | some (k, cs) =>
        match value? e fuel (skipSpace cs) with
        | none => none
        | some (v, cs) =>
          match skipInside e fuel cs with
          | ',' :: rest => entries? e fuel false ((k, v) :: done) rest
          | '\x7d' :: rest => some (((k, v) :: done).reverse, rest)
          | _ => none

end

def statement? (e : Edition) (fuel : Nat) (cs : List Char) : Option (Statement × List Char) :=
  match cs with
  | '[' :: '[' :: cs => do
    let (name, cs) ← key? e ']' fuel cs
    let cs ← expect? ']' cs
    some (.tables name, cs)
  | '[' :: cs => do
    let (name, cs) ← key? e ']' fuel cs
    some (.table name, cs)
  | cs => do
    let (key, cs) ← key? e '=' fuel cs
    let (value, cs) ← value? e fuel (skipSpace cs)
    some (.assign key value, cs)

def lineEnd? (cs : List Char) : Option (List Char) :=
  match skipSpace cs with
  | [] => some []
  | c :: cs => if c = '#' then some (skipComment cs) else if isNewline c then some cs else none

def statements? (e : Edition) : (fuel : Nat) → (done : List Statement) → List Char →
    Option (List Statement)
  | 0, _, _ => none
  | fuel + 1, done, cs =>
    match skipLines (fuel + 1) cs with
    | [] => some done.reverse
    | cs =>
      match statement? e (2 * fuel + 2) cs with
      | none => none
      | some (s, cs) =>
        match lineEnd? cs with
        | none => none
        | some cs => statements? e fuel (s :: done) cs

def parse? (e : Edition) (text : String) : Option (List Statement) :=
  let cs := match text.toList with
    | '\ufeff' :: cs => cs
    | cs => cs
  if isClean cs then statements? e (cs.length + 1) [] cs else none

end TemplateCensus.Toml
