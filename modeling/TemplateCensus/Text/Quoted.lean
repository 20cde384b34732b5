import TemplateCensus.Text.Printable

/-!
Quoted text for messages: in double quotes, with short escapes where there are some, hexadecimal
escapes for the other characters that cannot be printed, and all else verbatim.
-/

namespace TemplateCensus.Text

def hexDigits : (width : Nat) → Nat → List Char
  | 0, _ => []
  | w + 1, n => hexDigits w (n / 16) ++ [Nat.digitChar (n % 16)]

def escapeLetter? (c : Char) : Option Char :=
  if c = '\x22' || c = '\\' then some c
  else if c = '\x07' then some 'a'
  else if c = '\x08' then some 'b'
  else if c = '\x0c' then some 'f'
  else if c = '\n' then some 'n'
  else if c = '\r' then some 'r'
  else if c = '\t' then some 't'
  else if c = '\x0b' then some 'v'
  else none

def quotedChar (c : Char) : List Char :=
  match escapeLetter? c with
  | some e => ['\\', e]
  | none =>
    if isPrintable c then [c]
    else if c < ' ' || c = '\x7f' then '\\' :: 'x' :: hexDigits 2 c.toNat
    else if c.toNat < 0x10000 then '\\' :: 'u' :: hexDigits 4 c.toNat
    else '\\' :: 'U' :: hexDigits 8 c.toNat

def quote (s : String) : String :=
  String.ofList ('\x22' :: s.toList.flatMap quotedChar ++ ['\x22'])

end TemplateCensus.Text
