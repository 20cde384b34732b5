/-!
Decimal text of integers and reading it back.
-/

namespace TemplateCensus.Text

def natDecimal (n : Nat) : String := String.ofList (Nat.toDigits 10 n)

def decimal : Int → String
  | .ofNat n => natDecimal n
  | .negSucc n => "-" ++ natDecimal (n + 1)

def digit? (c : Char) : Option Nat :=
  if c.isDigit then some (c.toNat - '0'.toNat)
  else if 'a' ≤ c && c ≤ 'f' then some (c.toNat - 'a'.toNat + 10)
  else if 'A' ≤ c && c ≤ 'F' then some (c.toNat - 'A'.toNat + 10)
  else none

def natOfDigits? (base : Nat) (ds : List Char) : Option Nat :=
  if ds.isEmpty then none
  else ds.foldlM (fun acc c => (digit? c).bind fun d =>
    if d < base then some (acc * base + d) else none) 0

def wordLimit : Nat := 9223372036854775808

def fitsWord (n : Int) : Bool := -wordLimit ≤ n && n < wordLimit

def word? (n : Int) : Option Int := if fitsWord n then some n else none

def decimal? : List Char → Option Int
  | '-' :: ds => (natOfDigits? 10 ds).bind fun n => word? (-n)
  | ds => (natOfDigits? 10 ds).bind fun n => word? n

end TemplateCensus.Text
