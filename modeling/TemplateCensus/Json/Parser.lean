import TemplateCensus.Json.Value
import TemplateCensus.Text.Decimal

/-!
Reading JSON text. The reader keeps the containers under construction on a stack and looks at one
token after the other, so that a fault is found at the first character that cannot stand where it
stands. Text that ends too early is told apart from text that is wrong.
-/

namespace TemplateCensus.Json

open Text

def isSpace (c : Char) : Bool := c = ' ' || c = '\t' || c = '\n' || c = '\r'

/-- What reading one token from the front of a text gives. What is left is no longer than `whole`.
-/
inductive Lexed (α : Type) (whole : List Char) where
  | ok (value : α) (rest : List Char) (le : rest.length ≤ whole.length)
  | cut
  | malformed

def Lexed.map {α β : Type} {whole : List Char} (f : α → β) : Lexed α whole → Lexed β whole
  | ok a rest le => ok (f a) rest le
  | cut => cut
  | malformed => malformed

def unit? (cs : List Char) : Lexed Nat cs :=
  if (cs.take 4).any fun c => (digit? c).isNone then .malformed
  else if (cs.take 4).length < 4 then .cut
  else .ok ((natOfDigits? 16 (cs.take 4)).getD 0) (cs.drop 4) (by simp)

def lowSurrogate? : List Char → Option (Nat × List Char)
  | '\\' :: 'u' :: cs =>
    match unit? cs with
    | .ok v rest _ => if 0xDC00 ≤ v && v < 0xE000 then some (v, rest) else none
    | _ => none
  | _ => none

theorem length_of_lowSurrogate? {cs rest : List Char} {v : Nat}
    (h : lowSurrogate? cs = some (v, rest)) : rest.length ≤ cs.length := by
  unfold lowSurrogate? at h
  split at h
  · next cs =>
    split at h
    · next r le _ =>
      split at h
      · obtain ⟨_, rfl⟩ := Prod.mk.injEq .. ▸ Option.some.injEq .. ▸ h
        simp; omega
      · simp at h
    · simp at h
  · simp at h

def shortEscape? (c : Char) : Option Char :=
  if c = '\x22' || c = '\\' || c = '/' then some c
  else if c = 'b' then some '\x08'
  else if c = 'f' then some '\x0c'
  else if c = 'n' then some '\n'
  else if c = 'r' then some '\r'
  else if c = 't' then some '\t'
  else none

/-- The character of a code unit and, for a high surrogate, of the low one that follows it. A
surrogate without its partner reads as the replacement character. -/
def unitChar (v : Nat) (cs : List Char) : Char × { rest : List Char // rest.length ≤ cs.length } :=
  if 0xD800 ≤ v && v < 0xE000 then
    if v < 0xDC00 then
      match h : lowSurrogate? cs with
      | some (w, rest) =>
        (Char.ofNat ((v - 0xD800) * 0x400 + (w - 0xDC00) + 0x10000),
          ⟨rest, length_of_lowSurrogate? h⟩)
      | none => ('\ufffd', ⟨cs, Nat.le_refl _⟩)
    else ('\ufffd', ⟨cs, Nat.le_refl _⟩)
  else (Char.ofNat v, ⟨cs, Nat.le_refl _⟩)

def stringBody (whole acc cs : List Char) (h : cs.length ≤ whole.length) : Lexed String whole :=
  match cs with
  | [] => .cut
  | c :: cs =>
    if c = '\x22' then .ok (String.ofList acc.reverse) cs (by simp at h; omega)
    else if c = '\\' then
      match cs with
      | [] => .cut
      | e :: cs =>
        if e = 'u' then
          match unit? cs with
          | .cut => .cut
          | .malformed => .malformed
          | .ok v rest le =>
            let (d, ⟨rest', le'⟩) := unitChar v rest
            stringBody whole (d :: acc) rest' (by simp at h; omega)
        else
          match shortEscape? e with
          | none => .malformed
          | some d => stringBody whole (d :: acc) cs (by simp at h; omega)
    else if c < ' ' then .malformed
    else stringBody whole (c :: acc) cs (by simp at h; omega)
termination_by cs.length
decreasing_by
  all_goals
    subst_vars
    simp only [List.length_cons]
    omega

def digits (whole cs : List Char) (h : cs.length ≤ whole.length) : Lexed (List Char) whole :=
  if (cs.takeWhile Char.isDigit).isEmpty then
    if cs.isEmpty then .cut else .malformed
  else .ok (cs.takeWhile Char.isDigit) (cs.dropWhile Char.isDigit)
    (Nat.le_trans (List.dropWhile_suffix _).length_le h)

def fraction (whole cs : List Char) (h : cs.length ≤ whole.length) : Lexed (List Char) whole :=
  match cs with
  | '.' :: cs => (digits whole cs (by simp at h; omega)).map ('.' :: ·)
  | cs => .ok [] cs h

def exponent (whole cs : List Char) (h : cs.length ≤ whole.length) : Lexed (List Char) whole :=
  match cs with
  | [] => .ok [] [] (by simp)
  | e :: cs =>
    if e = 'e' || e = 'E' then
      match cs with
      | [] => .cut
      | s :: cs =>
        if s = '+' || s = '-' then
          (digits whole cs (by simp at h; omega)).map fun ds => e :: s :: ds
        else (digits whole (s :: cs) (by simp at h; simp; omega)).map (e :: ·)
    else .ok [] (e :: cs) h

def numberEnd (whole front cs : List Char) (h : cs.length ≤ whole.length) : Lexed Json whole :=
  match fraction whole cs h with
  | .cut => .cut
  | .malformed => .malformed
  | .ok frac cs le =>
    (exponent whole cs le).map fun exp => .number (String.ofList (front ++ frac ++ exp))

def numberFrom (whole sign : List Char) (c : Char) (cs : List Char) (h : cs.length ≤ whole.length) :
    Lexed Json whole :=
  if c = '0' then numberEnd whole (sign ++ ['0']) cs h
  else if c.isDigit then
    numberEnd whole (sign ++ c :: cs.takeWhile Char.isDigit) (cs.dropWhile Char.isDigit)
      (Nat.le_trans (List.dropWhile_suffix _).length_le h)
  else .malformed

def literal (whole : List Char) (value : Json) (expected cs : List Char)
    (h : cs.length ≤ whole.length) : Lexed Json whole :=
  if expected.isPrefixOf cs then
    .ok value (cs.drop expected.length) (by simp; omega)
  else if cs.isPrefixOf expected then .cut
  else .malformed

def scalar (whole : List Char) (c : Char) (cs : List Char) (h : cs.length ≤ whole.length) :
    Lexed Json whole :=
  if c = '\x22' then (stringBody whole [] cs h).map .string
  else if c = '-' then
    match cs with
    | [] => .cut
    | d :: ds => numberFrom whole ['-'] d ds (by simp at h; omega)
  else if c.isDigit then numberFrom whole [] c cs h
  else if c = 't' then literal whole (.bool true) "rue".toList cs h
  else if c = 'f' then literal whole (.bool false) "alse".toList cs h
  else if c = 'n' then literal whole .null "ull".toList cs h
  else .malformed

inductive Frame where
  | array (done : List Json)
  | object (done : List (String × Json)) (key : String)

inductive Awaiting where
  | value
  | firstItem
  | firstKey
  | key (done : List (String × Json))
  | colon (done : List (String × Json)) (key : String)
  | more

structure State where
  awaiting : Awaiting
  stack : List Frame
  depth : Nat

inductive Step (whole : List Char) where
  | next (s : State) (rest : List Char) (le : rest.length ≤ whole.length)
  | done (v : Json) (rest : List Char)
  | cut
  | malformed

def maxDepth : Nat := 10000

def deliver {whole : List Char} (v : Json) (stack : List Frame) (depth : Nat) (rest : List Char)
    (le : rest.length ≤ whole.length) : Step whole :=
  match stack with
  | [] => .done v rest
  | .array done :: st => .next ⟨.more, .array (v :: done) :: st, depth⟩ rest le
  | .object done key :: st => .next ⟨.more, .object ((key, v) :: done) key :: st, depth⟩ rest le

def enter {whole : List Char} (s : State) (awaiting : Awaiting) (stack : List Frame)
    (rest : List Char) (le : rest.length ≤ whole.length) : Step whole :=
  if s.depth < maxDepth then .next ⟨awaiting, stack, s.depth + 1⟩ rest le else .malformed

def readValue {whole : List Char} (s : State) (c : Char) (cs : List Char)
    (h : cs.length ≤ whole.length) : Step whole :=
  if c = '\x7b' then enter s .firstKey s.stack cs h
  else if c = '[' then enter s .firstItem (.array [] :: s.stack) cs h
  else
    match scalar whole c cs h with
    | .ok v rest le => deliver v s.stack s.depth rest le
    | .cut => .cut
    | .malformed => .malformed

def readKey {whole : List Char} (s : State) (done : List (String × Json)) (c : Char)
    (cs : List Char) (h : cs.length ≤ whole.length) : Step whole :=
  if c = '\x22' then
    match stringBody whole [] cs h with
    | .ok k rest le => .next { s with awaiting := .colon done k } rest le
    | .cut => .cut
    | .malformed => .malformed
  else .malformed

def State.step {whole : List Char} (s : State) (c : Char) (cs : List Char)
    (h : cs.length ≤ whole.length) : Step whole :=
  match s.awaiting with
  | .value => readValue s c cs h
  | .firstItem =>
    if c = ']' then deliver (.array []) (s.stack.drop 1) (s.depth - 1) cs h
    else readValue s c cs h
  | .firstKey =>
    if c = '\x7d' then deliver (.object []) s.stack (s.depth - 1) cs h
    else readKey s [] c cs h
  | .key done => readKey s done c cs h
  | .colon done key =>
    if c = ':' then .next { s with awaiting := .value, stack := .object done key :: s.stack } cs h
    else .malformed
  | .more =>
    match s.stack with
    | .array done :: st =>
      if c = ',' then .next { s with awaiting := .value } cs h
      else if c = ']' then deliver (.array done.reverse) st (s.depth - 1) cs h
      else .malformed
    | .object done _ :: st =>
      if c = ',' then .next { s with awaiting := .key done, stack := st } cs h
      else if c = '\x7d' then deliver (.object done.reverse) st (s.depth - 1) cs h
      else .malformed
    | [] => .malformed

inductive Reading where
  | value (v : Json) (rest : List Char)
  | empty
  | cut
  | malformed

def State.run (s : State) (fresh : Bool) (cs : List Char) : Reading :=
  match cs with
  | [] => if fresh then .empty else .cut
  | c :: cs =>
    if isSpace c then s.run fresh cs
    else
      match s.step c cs (Nat.le_refl _) with
      | .next s' rest _le => s'.run false rest
      | .done v rest => .value v rest
      | .cut => .cut
      | .malformed => .malformed
termination_by cs.length
decreasing_by
  · simp
  · exact Nat.lt_succ_of_le _le

def readFirst (text : String) : Reading := State.run ⟨.value, [], 0⟩ true text.toList

def parse? (text : String) : Option Json :=
  match readFirst text with
  | .value v rest => if rest.all isSpace then some v else none
  | _ => none

end TemplateCensus.Json
