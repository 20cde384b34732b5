import TemplateCensus.Text.Blank
import TemplateCensus.Keyed

/-!
References in compile flags: `$(command)` and variables of the environment.

Commands are not run here, so each stands for nothing; only the two tools that print flags are
welcome, any other is noted.
-/

namespace TemplateCensus.Expansion

open Text

structure Replaced where
  text : List Char
  notes : List String := []
  hasBlank : Bool := false

def note? (command : List Char) : Option String :=
  let isGap (c : Char) : Bool := c = ' ' || c = '\t' || c = '\n'
  let tool := String.ofList ((command.dropWhile isGap).takeWhile (!isGap ·))
  if tool = "pkg-config" || tool = "llvm-config" then none
  else some ("expand cmd only support pkg-config and llvm-config: '" ++
    String.ofList command ++ "'\n")

def command? (cs : List Char) : Option (List Char × List Char) :=
  match cs.takeWhile (· ≠ ')'), cs.dropWhile (· ≠ ')') with
  | [], _ => none
  | body, ')' :: rest => some (body, rest)
  | _, _ => none

theorem length_of_command? {cs body rest : List Char} (h : command? cs = some (body, rest)) :
    rest.length ≤ cs.length := by
  unfold command? at h
  split at h
  · simp at h
  · next hd _ =>
    obtain ⟨_, rfl⟩ := Prod.mk.injEq .. ▸ Option.some.injEq .. ▸ h
    have := (List.dropWhile_suffix (l := cs) (· ≠ ')')).length_le
    rw [hd] at this
    simp at this
    omega
  · simp at h

def commands (cs : List Char) : Replaced :=
  match cs with
  | [] => ⟨[], [], false⟩
  | '$' :: '(' :: cs =>
    match _h : command? cs with
    | some (body, rest) =>
      let r := commands rest
      let command := trim body
      if command.isEmpty then { r with hasBlank := true }
      else { r with notes := (note? command).toList ++ r.notes }
    | none =>
      let r := commands ('(' :: cs)
      { r with text := '$' :: r.text }
  | c :: cs =>
    let r := commands cs
    { r with text := c :: r.text }
termination_by cs.length
decreasing_by
  · have := length_of_command? _h
    simp; omega
  · simp
  · simp

def isSpecial (c : Char) : Bool := "*#$@!?-".toList.contains c || c.isDigit

/-- What a dollar refers to: a variable, nothing because the reference is broken, or no reference at
all; with the text behind it. -/
inductive Reference where
  | variable (name : List Char) (rest : List Char)
  | broken (rest : List Char)
  | none

def reference : List Char → Reference
  | [] => .none
  | '\x7b' :: cs =>
    match cs.takeWhile (· ≠ '\x7d'), cs.dropWhile (· ≠ '\x7d') with
    | _, [] => .broken cs
    | [], _ :: rest => .broken rest
    | name, _ :: rest => .variable name rest
  | c :: cs =>
    let isWord (c : Char) : Bool := c.isAlphanum || c = '_'
    if isSpecial c then .variable [c] cs
    else if isWord c then .variable (c :: cs.takeWhile isWord) (cs.dropWhile isWord)
    else .none

def Reference.rest? : Reference → Option (List Char)
  | .variable _ r => some r
  | .broken r => some r
  | .none => Option.none

theorem length_of_reference {cs r : List Char} (h : (reference cs).rest? = some r) :
    r.length ≤ cs.length := by
  unfold reference at h
  split at h
  · simp [Reference.rest?] at h
  · next cs =>
    have hs := (List.dropWhile_suffix (l := cs) (· ≠ '\x7d')).length_le
    split at h
    · simp only [Reference.rest?, Option.some.injEq] at h
      subst h; simp
    · next hd =>
      simp only [Reference.rest?, Option.some.injEq] at h
      subst h; rw [hd] at hs; simp at hs ⊢; omega
    · next hd _ =>
      simp only [Reference.rest?, Option.some.injEq] at h
      subst h; rw [hd] at hs; simp at hs ⊢; omega
  · next c cs _ =>
    dsimp only at h
    split at h
    · simp only [Reference.rest?, Option.some.injEq] at h
      subst h; simp
    · split at h
      · simp only [Reference.rest?, Option.some.injEq] at h
        subst h
        have := (List.dropWhile_suffix (l := cs)
          fun c => c.isAlphanum || decide (c = '_')).length_le
        simp; omega
      · simp [Reference.rest?] at h

def substitute (env : Keyed String) (cs : List Char) : List Char :=
  match cs with
  | [] => []
  | '$' :: cs =>
    match _h : reference cs with
    | .variable name rest =>
      ((env.find? (String.ofList name)).getD "").toList ++ substitute env rest
    | .broken rest => substitute env rest
    | .none => '$' :: substitute env cs
  | c :: cs => c :: substitute env cs
termination_by cs.length
decreasing_by
  · have := @length_of_reference cs rest (by rw [_h]; rfl)
    simp; omega
  · have := @length_of_reference cs rest (by rw [_h]; rfl)
    simp; omega
  · simp
  · simp

structure Expanded where
  text : String
  notes : List String

def expand? (env : Keyed String) (s : String) : Option Expanded :=
  let r := commands s.toList
  if r.hasBlank then none
  else some ⟨String.ofList (trim (substitute env r.text)), r.notes⟩

end TemplateCensus.Expansion
