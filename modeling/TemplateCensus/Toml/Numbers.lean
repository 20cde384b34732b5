import TemplateCensus.Text.Decimal
import TemplateCensus.Toml.Edition

/-!
Integers, floating point numbers and dates of TOML. A number is read as far as its characters go and
then has to have the right form.
-/

namespace TemplateCensus.Toml

open Text

def underscoresOk (behindDigit : Bool) : List Char → Bool
  | [] => behindDigit
  | c :: cs => (c ≠ '_' || behindDigit) && underscoresOk (digit? c).isSome cs

def plainDigits (cs : List Char) : List Char := cs.filter (· ≠ '_')

def hasLeadingZero : List Char → Bool
  | '0' :: _ :: _ => true
  | _ => false

def decimalInteger? (negative : Bool) (ds : List Char) : Option Int :=
  if underscoresOk false ds && !hasLeadingZero ds then
    (natOfDigits? 10 (plainDigits ds)).bind fun n => word? (if negative then -n else n)
  else none

def basedInteger? (base : Nat) (ds : List Char) : Option Int :=
  if underscoresOk false ds then
    (natOfDigits? base (plainDigits ds)).bind fun n => word? n
  else none

/-- The first number too large for a floating point number of 64 bits. -/
def floatLimit : Nat := Nat.pow 2 1024 - Nat.pow 2 970

def fitsFloat (digits : Nat) (exponent : Int) : Bool :=
  if digits = 0 then true
  else if exponent < 0 then
    let scale := exponent.natAbs
    if scale ≤ 2000 + (Nat.toDigits 10 digits).length then
      digits < floatLimit * Nat.pow 10 scale
    else true
  else exponent ≤ 400 && digits * Nat.pow 10 exponent.natAbs < floatLimit

def exponentOf? (cs : List Char) : Option Int :=
  match cs with
  | '-' :: ds => (natOfDigits? 10 ds).map fun n => -(n : Int)
  | '+' :: ds => (natOfDigits? 10 ds).map fun n => (n : Int)
  | ds => (natOfDigits? 10 ds).map fun n => (n : Int)

def floatPieces : List Char → List (List Char)
  | [] => []
  | c :: cs =>
    let isMark (c : Char) : Bool := c = '.' || c = 'e' || c = 'E'
    if isMark c then floatPieces cs
    else
      match cs.head?.any (!isMark ·), floatPieces cs with
      | true, p :: ps => (c :: p) :: ps
      | _, ps => [c] :: ps

def isFloat (cs : List Char) : Bool :=
  let whole := cs.takeWhile fun c => c ≠ '.' && c ≠ 'e' && c ≠ 'E'
  let rest := cs.drop whole.length
  let (frac, rest) := match rest with
    | '.' :: r => (some (r.takeWhile fun c => c ≠ 'e' && c ≠ 'E'),
        r.dropWhile fun c => c ≠ 'e' && c ≠ 'E')
    | r => (none, r)
  let exp := match rest with
    | _ :: r => exponentOf? (plainDigits r)
    | [] => some 0
  let isNumber (ds : List Char) : Bool := !ds.isEmpty && (plainDigits ds).all Char.isDigit
  (floatPieces cs).all (underscoresOk false) && !hasLeadingZero whole && isNumber whole &&
    frac.all isNumber &&
    match exp with
    | none => false
    | some e =>
      let digits := plainDigits (whole ++ frac.getD [])
      fitsFloat ((natOfDigits? 10 digits).getD 0) (e - (plainDigits (frac.getD [])).length)

def two? : List Char → Option (Nat × List Char)
  | a :: b :: cs => if a.isDigit && b.isDigit then (natOfDigits? 10 [a, b]).map (·, cs) else none
  | _ => none

def twoIn? (lo hi : Nat) (cs : List Char) : Option (Nat × List Char) :=
  (two? cs).bind fun (n, r) => if lo ≤ n && n ≤ hi then some (n, r) else none

def expect? (c : Char) : List Char → Option (List Char)
  | d :: cs => if c = d then some cs else none
  | [] => none

def daysIn (year month : Nat) : Nat :=
  if month = 2 then
    if year % 4 = 0 && (year % 100 ≠ 0 || year % 400 = 0) then 29 else 28
  else if month = 4 || month = 6 || month = 9 || month = 11 then 30
  else 31

def date? (cs : List Char) : Option (List Char) := do
  let ys := cs.take 4
  if ys.length < 4 || !ys.all Char.isDigit then none
  let year ← natOfDigits? 10 ys
  let cs ← expect? '-' (cs.drop 4)
  let (month, cs) ← twoIn? 1 12 cs
  let cs ← expect? '-' cs
  let (_, cs) ← twoIn? 1 (daysIn year month) cs
  some cs

def hour? : List Char → Option (List Char)
  | a :: b :: cs =>
    if a.isDigit && b.isDigit then (twoIn? 0 23 (a :: b :: cs)).map (·.2)
    else if a.isDigit then some (b :: cs) else none
  | _ => none

def secondFraction : List Char → List Char
  | '.' :: c :: cs => if c.isDigit then cs.dropWhile Char.isDigit else '.' :: c :: cs
  | cs => cs

def seconds? (cs : List Char) : Option (List Char) := do
  let cs ← expect? ':' cs
  let (_, cs) ← twoIn? 0 59 cs
  some (secondFraction cs)

def time? (e : Edition) (cs : List Char) : Option (List Char) := do
  let cs ← hour? cs
  let cs ← expect? ':' cs
  let (_, cs) ← twoIn? 0 59 cs
  match seconds? cs with
  | some cs => some cs
  | none => if e = .v11 then some cs else none

def zone? : List Char → Option (List Char)
  | 'Z' :: cs => some cs
  | s :: cs => do
    if s ≠ '+' && s ≠ '-' then none
    let (_, cs) ← twoIn? 0 24 cs
    let cs ← expect? ':' cs
    let (_, cs) ← twoIn? 0 60 cs
    some cs
  | [] => none

def isDate (e : Edition) (cs : List Char) : Bool :=
  let upper (c : Char) : Char := if c = 'z' then 'Z' else if c = 't' || c = ' ' then 'T' else c
  let cs := cs.map upper
  time? e cs = some [] ||
    match date? cs with
    | none => false
    | some [] => true
    | some r =>
      match (expect? 'T' r).bind (time? e) with
      | none => false
      | some r => r.isEmpty || zone? r = some []

end TemplateCensus.Toml
