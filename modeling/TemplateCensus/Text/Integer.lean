import TemplateCensus.Text.Decimal
import TemplateCensus.Text.Quoted

/-!
Integers in the notation of source code: an optional sign, and digits of base two, eight, ten or
sixteen as the leading characters say, with underscores between them.
-/

namespace TemplateCensus.Text

inductive IntegerFault where
  | malformed
  | outOfRange
  deriving DecidableEq, Repr

def IntegerFault.text : IntegerFault → String
  | malformed => "invalid syntax"
  | outOfRange => "value out of range"

def baseOf : List Char → Nat × List Char
  | '0' :: m :: d :: ds =>
    if m = 'b' || m = 'B' then (2, d :: ds)
    else if m = 'o' || m = 'O' then (8, d :: ds)
    else if m = 'x' || m = 'X' then (16, d :: ds)
    else (8, m :: d :: ds)
  | '0' :: ds => (8, ds)
  | ds => (10, ds)

def sumDigits (base : Nat) (acc : Nat) : List Char → Except IntegerFault Nat
  | [] => .ok acc
  | c :: cs =>
    if c = '_' then sumDigits base acc cs
    else
      match digit? c with
      | none => .error .malformed
      | some d =>
        if base ≤ d then .error .malformed
        -- found at the digit that makes it, so a malformed digit behind it is not looked at
        else if 2 * wordLimit ≤ acc * base + d then .error .outOfRange
        else sumDigits base (acc * base + d) cs

def separatesDigits (behind : Bool) : List Char → Bool
  | [] => true
  | '_' :: cs => behind && cs.head?.any (digit? · |>.isSome) && separatesDigits false cs
  | _ :: cs => separatesDigits true cs

def underscoresOk (s : List Char) : Bool :=
  match s with
  | '0' :: m :: ds =>
    if "bBoOxX".toList.contains m then separatesDigits true ds else separatesDigits false s
  | s => separatesDigits false s

def unsigned? (s : List Char) : Except IntegerFault Nat :=
  if s.isEmpty then .error .malformed
  else
    let (base, ds) := baseOf s
    match sumDigits base 0 ds with
    | .error f => .error f
    | .ok n => if underscoresOk s then .ok n else .error .malformed

def integer? (s : String) : Except IntegerFault Int :=
  let (negative, ds) := match s.toList with
    | '-' :: ds => (true, ds)
    | '+' :: ds => (false, ds)
    | ds => (false, ds)
  match unsigned? ds with
  | .error f => .error f
  | .ok n =>
    match word? (if negative then -n else n) with
    | some n => .ok n
    | none => .error .outOfRange

end TemplateCensus.Text
