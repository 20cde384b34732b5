import Mathlib.Data.List.TakeWhile
import TemplateCensus.Proofs.Text.Blank
import TemplateCensus.Spelling.Normal
import TemplateCensus.Spelling.Arguments

/-! Qualified names put together and taken apart. A component keeps its place when its brackets
match up and no colon stands outside of them; a template spelling gives back its name when its
arguments are bracketed. -/

namespace TemplateCensus.Spelling

open Text

/-! ## Matching brackets -/

def closer? (c : Char) : Option Char :=
  if c = '<' then some '>'
  else if c = '(' then some ')'
  else if c = '[' then some ']'
  else if c = '\x7b' then some '\x7d'
  else none

/-- Do the brackets of a text match up, kind for kind? The brackets that close those opened before
it come first, innermost in front. -/
def isBracketed (awaited : List Char) : List Char → Bool
  | [] => awaited.isEmpty
  | c :: cs =>
    match closer? c with
    | some d => isBracketed (d :: awaited) cs
    | none =>
      if closesArgument c then awaited.head? = some c && isBracketed awaited.tail cs
      else isBracketed awaited cs

def awaitedDepth (awaited : List Char) : Int := awaited.countP (· ≠ '\x7d')

theorem awaitedDepth_nonneg (awaited : List Char) : 0 ≤ awaitedDepth awaited := Int.natCast_nonneg _

theorem awaitedDepth_cons {d : Char} (h : closesArgument d) (awaited : List Char) :
    awaitedDepth (d :: awaited) = awaitedDepth awaited - scopeWeight d := by
  have hd : d = '>' ∨ d = ')' ∨ d = ']' ∨ d = '\x7d' := by simpa [closesArgument, or_assoc] using h
  rw [awaitedDepth, awaitedDepth, List.countP_cons]
  rcases hd with rfl | rfl | rfl | rfl <;> simp [scopeWeight]

theorem closer?_eq_some {c d : Char} (h : closer? c = some d) :
    opensArgument c ∧ closesArgument d ∧ scopeWeight c = -scopeWeight d := by
  unfold closer? at h
  split_ifs at h with h1 h2 h3 h4 <;> obtain rfl := Option.some.inj h <;> subst c <;> decide

theorem closer?_eq_none {c : Char} (h : closer? c = none) : ¬opensArgument c := by
  simp only [closer?, opensArgument] at *
  grind

theorem scopeWeight_eq_zero {c : Char} (ho : ¬opensArgument c) (hc : ¬closesArgument c) :
    scopeWeight c = 0 := by
  simp only [closesArgument, opensArgument, scopeWeight] at *
  grind

/-! ## Components -/

theorem foldr_consFirst (p x : List Char) (xs : List (List Char)) :
    p.foldr consFirst (x :: xs) = (p ++ x) :: xs := by
  induction p with
  | nil => rfl
  | cons c p ih => rw [List.foldr_cons, ih]; rfl

theorem scopePieces_cons {depth : Int} {c : Char} (h : depth = 0 → c ≠ ':') (cs : List Char) :
    scopePieces depth (c :: cs) = consFirst c (scopePieces (depth + scopeWeight c) cs) := by
  cases cs with
  | nil => rfl
  | cons d cs =>
    rw [scopePieces, if_neg]
    simp only [Bool.and_eq_true, decide_eq_true_eq]
    exact fun hc => h hc.1.1 hc.1.2

theorem scopePieces_ne_nil (depth : Int) (s : List Char) : scopePieces depth s ≠ [] := by
  fun_induction scopePieces depth s with
  | case1 => simp
  | case2 => simp
  | case3 => simp
  | case4 depth c d cs _ ih =>
    cases h : scopePieces (depth + scopeWeight c) (d :: cs) with
    | nil => exact absurd h ih
    | cons p ps => simp [consFirst]

theorem intercalate_consFirst {sep : List Char} {c : Char} {ps : List (List Char)} (h : ps ≠ []) :
    sep.intercalate (consFirst c ps) = c :: sep.intercalate ps := by
  cases ps with
  | nil => exact absurd rfl h
  | cons p ps => cases ps <;> simp [consFirst, List.intercalate]

theorem intercalate_scopePieces (depth : Int) (s : List Char) :
    [':', ':'].intercalate (scopePieces depth s) = s := by
  fun_induction scopePieces depth s with
  | case1 => rfl
  | case2 => rfl
  | case3 depth c d cs h ih =>
    simp only [Bool.and_eq_true, decide_eq_true_eq] at h
    rw [List.intercalate_cons_of_ne_nil (scopePieces_ne_nil _ _), ih, h.1.2, h.2]
    rfl
  | case4 depth c d cs _ ih => rw [intercalate_consFirst (scopePieces_ne_nil _ _), ih]

theorem qualify_scopeParts (s : String) : qualify (scopeParts s) = s := by
  have htext : (qualify (scopeParts s)).toList = _ := String.toList_intercalate
  have hpieces : (scopeParts s).map String.toList = scopePieces 0 s.toList := by
    simp [scopeParts, Function.comp_def]
  apply String.toList_inj.mp
  rw [htext, hpieces]
  exact intercalate_scopePieces 0 s.toList

theorem isSuffix_intercalate_concat {α : Type} (sep x : List α) (xs : List (List α)) :
    x <:+ sep.intercalate (xs ++ [x]) := by
  induction xs with
  | nil => simp
  | cons y xs ih =>
    rw [List.cons_append, List.intercalate_cons_of_ne_nil (by simp)]
    exact ih.trans (List.suffix_append _ _)

theorem scopePieces_append_of_isBracketed {m awaited : List Char} (hm : isBracketed awaited m)
    {depth : Int} (hd : 0 < depth) (r : List Char) :
    scopePieces (depth + awaitedDepth awaited) (m ++ r) =
      m.foldr consFirst (scopePieces depth r) := by
  induction m generalizing awaited with
  | nil =>
    rw [isBracketed, List.isEmpty_iff] at hm
    subst hm
    exact congrArg (scopePieces · r) (Int.add_zero depth)
  | cons c m ih =>
    have hpos : depth + awaitedDepth awaited ≠ 0 := by
      have := awaitedDepth_nonneg awaited
      omega
    rw [List.cons_append, scopePieces_cons (fun h => absurd h hpos), List.foldr_cons]
    congr 1
    rw [isBracketed] at hm
    -- the count moves with the awaited brackets, braces leave both depths alone
    cases ho : closer? c with
    | some d =>
      obtain ⟨-, hclose, hw⟩ := closer?_eq_some ho
      rw [ho] at hm
      rw [← ih hm, awaitedDepth_cons hclose, hw]
      congr 1
      omega
    | none =>
      simp only [ho] at hm
      split_ifs at hm with hclose
      · obtain ⟨hhead, hm⟩ := Bool.and_eq_true_iff.mp hm
        obtain ⟨rest, rfl⟩ := List.head?_eq_some_iff.mp (of_decide_eq_true hhead)
        rw [← ih hm, awaitedDepth_cons hclose, List.tail_cons]
        congr 1
        omega
      · rw [← ih hm, scopeWeight_eq_zero (closer?_eq_none ho) hclose, Int.add_zero]

/-- A text that stands in a qualified name as part of one component. -/
def IsComponent (p : List Char) : Prop :=
  ∀ r, scopePieces 0 (p ++ r) = p.foldr consFirst (scopePieces 0 r)

namespace IsComponent

theorem append {p q : List Char} (hp : IsComponent p) (hq : IsComponent q) :
    IsComponent (p ++ q) := by
  intro r
  rw [List.append_assoc, hp, hq, List.foldr_append]

theorem of_plain {p : List Char} (h : ∀ c ∈ p, c ≠ ':' ∧ scopeWeight c = 0) : IsComponent p := by
  intro r
  induction p with
  | nil => rfl
  | cons c p ih =>
    obtain ⟨hc, hw⟩ := h c List.mem_cons_self
    rw [List.cons_append, scopePieces_cons (fun _ => hc), hw, List.foldr_cons, Int.add_zero,
      ih fun d hd => h d (List.mem_cons_of_mem _ hd)]

theorem of_group {o c : Char} (ho : scopeWeight o = 1) (hc : scopeWeight c = -1) {m : List Char}
    (hm : isBracketed [] m) : IsComponent (o :: (m ++ [c])) := by
  intro r
  have hcolon : o ≠ ':' := by
    rintro rfl
    exact absurd ho (by decide)
  have hinner := scopePieces_append_of_isBracketed hm Int.one_pos (c :: r)
  rw [List.cons_append, scopePieces_cons (fun _ => hcolon), ho, List.append_assoc, List.foldr_cons,
    List.foldr_append]
  congr 1
  refine hinner.trans ?_
  rw [scopePieces_cons (fun h => absurd h (by decide)), hc]
  rfl

end IsComponent

theorem scopePieces_intercalate_concat {ps : List (List Char)} (h : ∀ p ∈ ps, IsComponent p)
    (q : List Char) :
    scopePieces 0 ([':', ':'].intercalate (ps ++ [q])) = ps ++ scopePieces 0 q := by
  induction ps with
  | nil => rw [List.nil_append, List.nil_append, List.intercalate_singleton]
  | cons p ps ih =>
    have hp := h p List.mem_cons_self
    have hrest := ih fun p hp => h p (List.mem_cons_of_mem _ hp)
    have hsep : ∀ r, scopePieces 0 ([':', ':'] ++ r) = [] :: scopePieces 0 r := fun _ => rfl
    rw [List.cons_append, List.intercalate_cons_of_ne_nil (by simp), List.append_assoc, hp, hsep,
      hrest, foldr_consFirst, List.append_nil, List.cons_append]

theorem IsComponent.scopePieces_eq {p : List Char} (h : IsComponent p) : scopePieces 0 p = [p] := by
  have hpiece := h []
  rw [List.append_nil, scopePieces, foldr_consFirst, List.append_nil] at hpiece
  exact hpiece

theorem scopePieces_intercalate {ps : List (List Char)} (hne : ps ≠ [])
    (h : ∀ p ∈ ps, IsComponent p) : scopePieces 0 ([':', ':'].intercalate ps) = ps := by
  obtain ⟨qs, q, rfl⟩ : ∃ qs q, ps = qs ++ [q] := ⟨_, _, (List.dropLast_concat_getLast hne).symm⟩
  have hqs := scopePieces_intercalate_concat (fun p hp => h p (List.mem_append_left _ hp)) q
  rw [hqs, (h q (by simp)).scopePieces_eq]

theorem scopeParts_qualify {parts : List String} (hne : parts ≠ [])
    (h : ∀ p ∈ parts, IsComponent p.toList) : scopeParts (qualify parts) = parts := by
  have hchars : scopePieces 0 ([':', ':'].intercalate (parts.map String.toList)) =
      parts.map String.toList :=
    scopePieces_intercalate (by simpa using hne) (by simpa using h)
  have htext : (qualify parts).toList = [':', ':'].intercalate (parts.map String.toList) :=
    String.toList_intercalate
  rw [scopeParts, htext, hchars, List.map_map]
  simp

/-! ## Names with arguments -/

def applied (name args : String) : String := name ++ "<" ++ args ++ ">"

theorem toList_applied (name args : String) :
    (applied name args).toList = name.toList ++ '<' :: (args.toList ++ ['>']) := by
  simp [applied]

theorem isSome_argumentPieces_of_opens {c : Char} (ho : opensArgument c) (depth : Nat)
    (cs : List Char) :
    (argumentPieces depth (c :: cs)).isSome = (argumentPieces (depth + 1) cs).isSome := by
  cases depth <;> simp [argumentPieces, ho]

theorem isSome_argumentPieces_of_closes {c : Char} (ho : ¬opensArgument c)
    (hc : closesArgument c) (depth : Nat) (cs : List Char) :
    (argumentPieces (depth + 1) (c :: cs)).isSome = (argumentPieces depth cs).isSome := by
  simp [argumentPieces, ho, hc]

theorem isSome_argumentPieces_of_plain {c : Char} (ho : ¬opensArgument c)
    (hc : ¬closesArgument c) (depth : Nat) (cs : List Char) :
    (argumentPieces depth (c :: cs)).isSome = (argumentPieces depth cs).isSome := by
  rcases depth with _ | depth <;> simp only [argumentPieces, ho, hc] <;> split_ifs <;> simp_all

theorem isSome_argumentPieces {m awaited : List Char} (h : isBracketed awaited m) :
    (argumentPieces awaited.length m).isSome := by
  induction m generalizing awaited with
  | nil =>
    rw [isBracketed, List.isEmpty_iff] at h
    subst h
    rfl
  | cons c m ih =>
    rw [isBracketed] at h
    cases ho : closer? c with
    | some d =>
      rw [ho] at h
      rw [isSome_argumentPieces_of_opens (closer?_eq_some ho).1]
      exact ih h
    | none =>
      simp only [ho] at h
      split_ifs at h with hclose
      · obtain ⟨hhead, h⟩ := Bool.and_eq_true_iff.mp h
        obtain ⟨rest, rfl⟩ := List.head?_eq_some_iff.mp (of_decide_eq_true hhead)
        rw [List.length_cons, isSome_argumentPieces_of_closes (closer?_eq_none ho) hclose]
        exact ih h
      · rw [isSome_argumentPieces_of_plain (closer?_eq_none ho) hclose]
        exact ih h

theorem getLast?_of_template? {s name : String} {args : List String}
    (h : template? s = some (name, args)) : s.toList.getLast? = some '>' := by
  obtain ⟨na, hna, -⟩ := Option.map_eq_some_iff.mp h
  simp only [templateChars?] at hna
  split_ifs at hna with hcond
  simp only [Bool.or_eq_true, not_or, decide_eq_true_eq, ne_eq, not_not] at hcond
  have hlast := hcond.2
  rw [List.getLast?_drop] at hlast
  split_ifs at hlast
  exact hlast

structure IsTemplateName (name : String) : Prop where
  ne_empty : name ≠ ""
  no_angle : '<' ∉ name.toList
  trimmed : trim name.toList = name.toList

theorem forall_ne_angle {name : List Char} (h : '<' ∉ name) : ∀ c ∈ name, decide (c ≠ '<') :=
  fun _ hc => decide_eq_true fun hangle => h (hangle ▸ hc)

theorem templateChars?_of_no_angle {s : List Char} (h : '<' ∉ s) : templateChars? s = none := by
  have htake := List.takeWhile_eq_self_iff.mpr (forall_ne_angle h)
  have hinside : s.drop (s.length + 1) = [] := List.drop_eq_nil_of_le (Nat.le_succ _)
  simp only [templateChars?, htake, hinside]
  simp

theorem templateChars?_of_angle {name : List Char} (h : '<' ∉ name) (rest : List Char) :
    templateChars? (name ++ '<' :: rest) =
      if name.isEmpty || rest.getLast? ≠ some '>' then none
      else (argumentPieces 0 rest.dropLast).map fun ps => (trim name, trimmedArguments ps) := by
  have htake : (name ++ '<' :: rest).takeWhile (· ≠ '<') = name := by
    rw [List.takeWhile_append_of_pos (forall_ne_angle h), List.takeWhile_cons_of_neg (by simp),
      List.append_nil]
  have hinside : (name ++ '<' :: rest).drop (name.length + 1) = rest := by simp
  simp only [templateChars?, htake, hinside]

theorem templateChars?_enclosed {name args : List Char} (hne : name ≠ []) (h : '<' ∉ name) :
    templateChars? (name ++ '<' :: (args ++ ['>'])) =
      (argumentPieces 0 args).map fun ps => (trim name, trimmedArguments ps) := by
  have hname : name.isEmpty = false := by simpa using hne
  rw [templateChars?_of_angle h, hname, List.getLast?_concat, List.dropLast_concat]
  rfl

theorem templateChars?_applied {name args : List Char} (hne : name ≠ []) (h : '<' ∉ name)
    (hargs : isBracketed [] args) :
    ∃ as, templateChars? (name ++ '<' :: (args ++ ['>'])) = some (trim name, as) := by
  obtain ⟨ps, hps⟩ := Option.isSome_iff_exists.mp (isSome_argumentPieces hargs)
  rw [List.length_nil] at hps
  exact ⟨trimmedArguments ps, by rw [templateChars?_enclosed hne h, hps, Option.map_some]⟩

theorem template?_applied {name args : String} (hname : IsTemplateName name)
    (hargs : isBracketed [] args.toList) :
    ∃ as, template? (applied name args) = some (name, as) := by
  have hne : name.toList ≠ [] := by simpa using hname.ne_empty
  obtain ⟨as, has⟩ := templateChars?_applied hne hname.no_angle hargs
  refine ⟨as.map String.ofList, ?_⟩
  rw [template?, toList_applied, has, hname.trimmed, Option.map_some]
  simp

theorem templateName_applied {name args : String} (hname : IsTemplateName name)
    (hargs : isBracketed [] args.toList) : templateName (applied name args) = name := by
  obtain ⟨as, has⟩ := template?_applied hname hargs
  rw [templateName, has]
  rfl

theorem templateName_of_no_angle {name : String} (h : '<' ∉ name.toList) :
    templateName name = name := by
  rw [templateName, template?, templateChars?_of_no_angle h]
  rfl

/-! ## Identifiers -/

def isNameChar (c : Char) : Bool := !isBlank c && (isIdentifierChar c || '\x7f' < c)

def isIdentifier (s : String) : Bool :=
  s.toList.head?.any (!·.isDigit) && s.toList.all isNameChar

theorem not_isBlank_of_isNameChar {c : Char} (h : isNameChar c) : ¬isBlank c := by
  simpa using (Bool.and_eq_true_iff.mp h).1

theorem isNameChar_apart : ∀ c ∈ [':', '<', '>', '(', ')', '[', ']'], ¬isNameChar c := by
  have hall : [':', '<', '>', '(', ')', '[', ']'].all (!isNameChar ·) := by decide
  intro c hc
  simpa using List.all_eq_true.mp hall c hc

theorem scopeWeight_of_isNameChar {c : Char} (h : isNameChar c) : c ≠ ':' ∧ scopeWeight c = 0 := by
  have hne : c ∉ [':', '<', '>', '(', ')', '[', ']'] := fun hc => isNameChar_apart c hc h
  simp only [List.mem_cons, List.not_mem_nil, or_false, not_or] at hne
  simp [scopeWeight, hne]

/-- A name as it stands in a qualified name, with or without arguments behind it. -/
structure IsScopeName (name : String) : Prop extends IsTemplateName name where
  isComponent : IsComponent name.toList

theorem isComponent_of_isIdentifier {name : String} (h : isIdentifier name) :
    IsComponent name.toList := by
  have hall := List.all_eq_true.mp (Bool.and_eq_true_iff.mp h).2
  exact .of_plain fun c hc => scopeWeight_of_isNameChar (hall c hc)

theorem isScopeName_of_isIdentifier {name : String} (h : isIdentifier name) : IsScopeName name := by
  have hall := List.all_eq_true.mp (Bool.and_eq_true_iff.mp h).2
  refine ⟨⟨?_, ?_, ?_⟩, isComponent_of_isIdentifier h⟩
  · rintro rfl
    exact absurd h (by decide)
  · exact fun hangle => isNameChar_apart '<' (by decide) (hall '<' hangle)
  · exact trim_eq_self (fun c hc => not_isBlank_of_isNameChar (hall c (List.mem_of_head? hc)))
      fun c hc => not_isBlank_of_isNameChar (hall c (List.mem_of_getLast? hc))

theorem isScopeName_anonymous : IsScopeName "(anonymous namespace)" := by
  refine ⟨⟨by decide, by decide, by decide⟩, ?_⟩
  exact IsComponent.of_group (o := '(') (c := ')') (m := "anonymous namespace".toList) rfl rfl
    (by decide)

/-! ## Printed names -/

def Shows (name text : String) : Prop :=
  text = name ∨ ∃ args : String, isBracketed [] args.toList ∧ text = applied name args

def plainName (spelling : String) : String :=
  qualify ((scopeParts spelling).map templateName)

theorem isComponent_applied {name args : String} (hname : IsComponent name.toList)
    (hargs : isBracketed [] args.toList) : IsComponent (applied name args).toList := by
  rw [toList_applied]
  exact hname.append (.of_group rfl rfl hargs)

theorem Shows.templateName_eq {name text : String} (h : Shows name text)
    (hname : IsScopeName name) : templateName text = name := by
  rcases h with rfl | ⟨args, hargs, rfl⟩
  · exact templateName_of_no_angle hname.no_angle
  · exact templateName_applied hname.toIsTemplateName hargs

theorem Shows.isComponent {name text : String} (h : Shows name text)
    (hname : IsScopeName name) : IsComponent text.toList := by
  rcases h with rfl | ⟨args, hargs, rfl⟩
  · exact hname.isComponent
  · exact isComponent_applied hname.isComponent hargs

theorem map_templateName_of_shows {names texts : List String} (h : List.Forall₂ Shows names texts)
    (hnames : ∀ n ∈ names, IsScopeName n) :
    texts.map templateName = names ∧ ∀ x ∈ texts, IsComponent x.toList := by
  induction h with
  | nil => exact ⟨rfl, fun x hx => nomatch hx⟩
  | cons hshow _ ih =>
    obtain ⟨hmap, hall⟩ := ih fun n hn => hnames n (List.mem_cons_of_mem _ hn)
    have hname := hnames _ List.mem_cons_self
    refine ⟨?_, ?_⟩
    · rw [List.map_cons, hshow.templateName_eq hname, hmap]
    · rintro x (_ | ⟨_, hx⟩)
      · exact hshow.isComponent hname
      · exact hall x hx

theorem scopeParts_of_shows {names texts : List String} (h : List.Forall₂ Shows names texts)
    (hne : texts ≠ []) (hnames : ∀ n ∈ names, IsScopeName n) :
    scopeParts (qualify texts) = texts ∧ plainName (qualify texts) = qualify names := by
  obtain ⟨hmap, hall⟩ := map_templateName_of_shows h hnames
  have hparts := scopeParts_qualify hne hall
  exact ⟨hparts, by rw [plainName, hparts, hmap]⟩

theorem qualify_inj {ps qs : List String} (hp : ps ≠ []) (hq : qs ≠ [])
    (hps : ∀ p ∈ ps, IsComponent p.toList) (hqs : ∀ q ∈ qs, IsComponent q.toList)
    (h : qualify ps = qualify qs) : ps = qs := by
  rw [← scopeParts_qualify hp hps, h, scopeParts_qualify hq hqs]

end TemplateCensus.Spelling
