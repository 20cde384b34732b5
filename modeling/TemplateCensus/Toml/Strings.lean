import TemplateCensus.Text.Decimal
import TemplateCensus.Toml.Edition

/-!
Strings of TOML: basic strings with escapes and literal strings without, each on one line or over
several lines. Every reader starts behind the opening quotes and gives the text behind the closing
ones.
-/

namespace TemplateCensus.Toml

open Text

def isSpace (c : Char) : Bool := c = ' ' || c = '\t'

def isNewline (c : Char) : Bool := c = '\n' || c = '\r'

def shortEscape? (e : Edition) (c : Char) : Option Char :=
  if c = '\x22' || c = '\\' then some c
  else if c = 'b' then some '\x08'
  else if c = 't' then some '\t'
  else if c = 'n' then some '\n'
  else if c = 'f' then some '\x0c'
  else if c = 'r' then some '\r'
  else if c = 'e' && e = .v11 then some '\x1b'
  else none

def codePoint? (width : Nat) (cs : List Char) : Option (Char × List Char) :=
  if (cs.take width).length = width then
    (natOfDigits? 16 (cs.take width)).bind fun n =>
      if n.isValidChar then some (Char.ofNat n, cs.drop width) else none
  else none

def escapeWidth? (e : Edition) (c : Char) : Option Nat :=
  if c = 'u' then some 4
  else if c = 'U' then some 8
  else if c = 'x' && e = .v11 then some 2
  else none

def escape? (e : Edition) : List Char → Option (Char × List Char)
  | [] => none
  | c :: cs =>
    match escapeWidth? e c with
    | some width => codePoint? width cs
    | none => (shortEscape? e c).map (·, cs)

theorem length_of_codePoint? {w : Nat} {cs rest : List Char} {d : Char}
    (h : codePoint? w cs = some (d, rest)) : rest.length ≤ cs.length := by
  unfold codePoint? at h
  split at h
  · obtain ⟨n, _, hn⟩ := Option.bind_eq_some_iff.1 h
    split at hn
    · obtain ⟨_, rfl⟩ := Prod.mk.injEq .. ▸ Option.some.injEq .. ▸ hn
      simp
    · simp at hn
  · simp at h

theorem length_of_escape? {e : Edition} {cs rest : List Char} {d : Char}
    (h : escape? e cs = some (d, rest)) : rest.length ≤ cs.length := by
  unfold escape? at h
  split at h
  · simp at h
  · split at h
    · have := length_of_codePoint? h
      simp; omega
    · obtain ⟨_, _, he⟩ := Option.map_eq_some_iff.1 h
      obtain ⟨_, rfl⟩ := Prod.mk.injEq .. ▸ he
      simp

def basicString? (e : Edition) (acc cs : List Char) : Option (String × List Char) :=
  match cs with
  | [] => none
  | c :: cs =>
    if c = '\x22' then some (String.ofList acc.reverse, cs)
    else if isNewline c then none
    else if c = '\\' then
      match _h : escape? e cs with
      | none => none
      | some (d, rest) => basicString? e (d :: acc) rest
    else basicString? e (c :: acc) cs
termination_by cs.length
decreasing_by
  · have := length_of_escape? _h
    simp; omega
  · simp

def literalString? (acc : List Char) : List Char → Option (String × List Char)
  | [] => none
  | c :: cs =>
    if c = '\x27' then some (String.ofList acc.reverse, cs)
    else if isNewline c then none
    else literalString? (c :: acc) cs

def afterFirstNewline : List Char → List Char
  | '\n' :: cs => cs
  | '\r' :: '\n' :: cs => cs
  | cs => cs

def isGap (c : Char) : Bool := isSpace c || isNewline c

def afterLineEnd? (cs : List Char) : Option (List Char) :=
  if (cs.takeWhile isGap).contains '\n' then some (cs.dropWhile isGap) else none

theorem length_of_afterLineEnd? {cs rest : List Char}
    (h : afterLineEnd? cs = some rest) : rest.length ≤ cs.length := by
  unfold afterLineEnd? at h
  split at h
  · obtain rfl := Option.some.injEq .. ▸ h
    exact (List.dropWhile_suffix _).length_le
  · simp at h

/-- A basic string over several lines. Three quotes end it, with up to two quotes of its own right
in front of them; behind an escaped backslash (`lenient`) a third one is let through. -/
def basicLines? (e : Edition) (lenient : Bool) (acc cs : List Char) :
    Option (String × List Char) :=
  match cs with
  | [] => none
  | c :: cs =>
    if c = '\x22' then
      let n := (cs.takeWhile (· = '\x22')).length + 1
      if n < 3 then basicLines? e false (List.replicate n c ++ acc) (cs.dropWhile (· = '\x22'))
      else if n ≤ 5 || (lenient && n = 6) then
        some (String.ofList (List.replicate (n - 3) c ++ acc).reverse,
          cs.dropWhile (· = '\x22'))
      else none
    else if c = '\\' then
      match _h : afterLineEnd? cs with
      | some rest => basicLines? e false acc rest
      | none =>
        match _h : escape? e cs with
        | none => none
        | some (d, rest) => basicLines? e (cs.head? = some '\\') (d :: acc) rest
    else basicLines? e false (c :: acc) cs
termination_by cs.length
decreasing_by
  · have := (List.dropWhile_suffix (l := cs) (· = '\x22')).length_le
    simp; omega
  · have := length_of_afterLineEnd? _h
    simp; omega
  · have := length_of_escape? _h
    simp; omega
  · simp

def literalLines? (acc cs : List Char) : Option (String × List Char) :=
  match cs with
  | [] => none
  | c :: cs =>
    if c = '\x27' then
      let n := (cs.takeWhile (· = '\x27')).length + 1
      if n < 3 then literalLines? (List.replicate n c ++ acc) (cs.dropWhile (· = '\x27'))
      else if n ≤ 5 then
        some (String.ofList (List.replicate (n - 3) c ++ acc).reverse,
          cs.dropWhile (· = '\x27'))
      else none
    else literalLines? (c :: acc) cs
termination_by cs.length
decreasing_by
  · have := (List.dropWhile_suffix (l := cs) (· = '\x27')).length_le
    simp; omega
  · simp

def string? (e : Edition) : List Char → Option (String × List Char)
  | '\x22' :: '\x22' :: '\x22' :: cs => basicLines? e false [] (afterFirstNewline cs)
  | '\x27' :: '\x27' :: '\x27' :: cs => literalLines? [] (afterFirstNewline cs)
  | '\x22' :: cs => basicString? e [] cs
  | '\x27' :: cs => literalString? [] cs
  | _ => none

end TemplateCensus.Toml
