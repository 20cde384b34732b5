import TemplateCensus.Proofs.Spelling.Arguments

/-! Spellings cut at positions. Here the functions on spellings run over a text with positions in
it, read single characters and cut out slices, each of which fails outside of the text. The guards
in front of them are enough: nothing ever fails, and the results are those of the functions that
take the text apart from its front. -/

namespace TemplateCensus

namespace Text

def slice? (s : List Char) (start stop : Nat) : Option (List Char) :=
  if start ≤ stop ∧ stop ≤ s.length then some ((s.take stop).drop start) else none

/-- Of the text, `piece` stands from `start` up to `i`, and `rest` behind it. -/
def StandsAt (s : List Char) (start i : Nat) (piece rest : List Char) : Prop :=
  ∃ front, s = front ++ piece ++ rest ∧ start = front.length ∧ i = front.length + piece.length

namespace StandsAt

variable {s piece rest w : List Char} {start i : Nat} {c : Char}

theorem whole (s : List Char) : StandsAt s 0 0 [] s := ⟨[], rfl, rfl, rfl⟩

theorem slice?_eq (h : StandsAt s start i piece rest) : slice? s start i = some piece := by
  obtain ⟨front, rfl, rfl, rfl⟩ := h
  have hrange : front.length ≤ front.length + piece.length ∧
      front.length + piece.length ≤ (front ++ piece ++ rest).length := by simp
  rw [slice?, if_pos hrange, ← List.length_append, List.take_left, List.drop_left]

theorem length_eq (h : StandsAt s start i piece rest) : s.length = i + rest.length := by
  obtain ⟨front, rfl, rfl, rfl⟩ := h
  rw [List.length_append, List.length_append]

theorem lt_length (h : StandsAt s start i piece (c :: rest)) : i < s.length := by
  rw [h.length_eq, List.length_cons]
  omega

theorem getElem?_eq (h : StandsAt s start i piece (c :: rest)) : s[i]? = some c := by
  obtain ⟨front, rfl, rfl, rfl⟩ := h
  rw [← List.length_append, List.getElem?_append_right (Nat.le_refl _), Nat.sub_self]
  rfl

theorem step (h : StandsAt s start i piece (c :: rest)) :
    StandsAt s start (i + 1) (piece ++ [c]) rest := by
  obtain ⟨front, rfl, rfl, rfl⟩ := h
  exact ⟨front, by simp, rfl, by simp [Nat.add_assoc]⟩

theorem restart (h : StandsAt s start i piece rest) : StandsAt s i i [] rest := by
  obtain ⟨front, rfl, rfl, rfl⟩ := h
  exact ⟨front ++ piece, by simp, by simp, by simp⟩

theorem skip (h : StandsAt s start i piece (w ++ rest)) :
    StandsAt s start (i + w.length) (piece ++ w) rest := by
  obtain ⟨front, rfl, rfl, rfl⟩ := h
  exact ⟨front, by simp, rfl, by simp [Nat.add_assoc]⟩

end StandsAt

end Text

namespace Spelling

open Text

/-! ## Qualified names -/

/-- Is there a separator at a position? A second colon is looked for only if there is room. -/
def separatorAt? (s : List Char) (depth : Int) (i : Nat) : Option Bool := do
  let c ← s[i]?
  if c = ':' && depth = 0 && i + 1 < s.length then (s[i + 1]?).map (· = ':') else some false

def scopeCuts? (s : List Char) (depth : Int) (start i : Nat) : Option (List (List Char)) :=
  if _ : i < s.length then do
    let c ← s[i]?
    if ← separatorAt? s depth i then
      let piece ← slice? s start i
      let pieces ← scopeCuts? s depth (i + 2) (i + 2)
      some (piece :: pieces)
    else scopeCuts? s (depth + scopeWeight c) start (i + 1)
  else (slice? s start s.length).map ([·])
termination_by s.length - i

section
variable {s piece rest : List Char} {start i : Nat} {c : Char}

theorem separatorAt?_eq (h : StandsAt s start i piece (c :: rest)) (depth : Int) :
    separatorAt? s depth i = some (depth = 0 && c = ':' && rest.head? = some ':') := by
  have hget := h.getElem?_eq
  have hlength := h.step.length_eq
  cases rest with
  | nil =>
    have hroom : ¬i + 1 < s.length := by simp [hlength]
    simp [separatorAt?, hget, hroom]
  | cons d rest =>
    have hroom : i + 1 < s.length := h.step.lt_length
    have hnext : s[i + 1]? = some d := h.step.getElem?_eq
    simp only [separatorAt?, hget, hnext, hroom]
    by_cases hc : c = ':' <;> by_cases hd : depth = 0 <;> simp [hc, hd]

theorem scopeCuts?_end (h : StandsAt s start i piece []) (depth : Int) :
    scopeCuts? s depth start i = some [piece] := by
  have hi : s.length = i := h.length_eq
  rw [scopeCuts?, dif_neg (by omega), hi, h.slice?_eq, Option.map_some]

theorem scopeCuts?_step (h : StandsAt s start i piece (c :: rest)) (depth : Int) :
    scopeCuts? s depth start i =
      if depth = 0 && c = ':' && rest.head? = some ':' then
        (scopeCuts? s depth (i + 2) (i + 2)).map (piece :: ·)
      else scopeCuts? s (depth + scopeWeight c) start (i + 1) := by
  rw [scopeCuts?, dif_pos h.lt_length, h.getElem?_eq, separatorAt?_eq h, h.slice?_eq]
  simp only [Option.bind_eq_bind, Option.bind_some, Option.map_eq_bind]
  rfl

end

theorem scopeCuts?_eq {s piece rest : List Char} {start i : Nat} {depth : Int}
    (h : StandsAt s start i piece rest) :
    scopeCuts? s depth start i = some (piece.foldr consFirst (scopePieces depth rest)) := by
  fun_induction scopePieces depth rest generalizing start i piece with
  | case1 depth => rw [scopeCuts?_end h, foldr_consFirst, List.append_nil]
  | case2 depth c =>
    rw [scopeCuts?_step h, if_neg (by simp), scopeCuts?_end h.step, foldr_consFirst]
  | case3 depth c d rest hcut ih =>
    have hhead : (depth = 0 && c = ':' && (d :: rest).head? = some ':') = true := by
      simpa using hcut
    rw [scopeCuts?_step h, if_pos hhead, ih h.step.step.restart, foldr_consFirst, List.append_nil]
    rfl
  | case4 depth c d rest hcut ih =>
    have hhead : ¬(depth = 0 && c = ':' && (d :: rest).head? = some ':') = true := by
      simpa using hcut
    rw [scopeCuts?_step h, if_neg hhead, ih h.step, List.foldr_append]
    rfl

theorem scopeCuts?_eq_scopePieces (s : List Char) : scopeCuts? s 0 0 0 = some (scopePieces 0 s) :=
  scopeCuts?_eq (.whole s)

/-! ## Template spellings -/

def argumentCuts? (s : List Char) (depth start i : Nat) : Option (Option (List (List Char))) :=
  if _ : i < s.length then do
    let c ← s[i]?
    if opensArgument c then argumentCuts? s (depth + 1) start (i + 1)
    else if closesArgument c then
      if depth = 0 then some none else argumentCuts? s (depth - 1) start (i + 1)
    else if c = ',' && depth = 0 then
      let piece ← slice? s start i
      let pieces ← argumentCuts? s 0 (i + 1) (i + 1)
      some (pieces.map (piece :: ·))
    else argumentCuts? s depth start (i + 1)
  else if depth = 0 then (slice? s start s.length).map fun piece => some [piece]
  else some none
termination_by s.length - i

theorem argumentCuts?_eq {s piece rest : List Char} {start i : Nat}
    (h : StandsAt s start i piece rest) (depth : Nat) : argumentCuts? s depth start i =
      some ((argumentPieces depth rest).map (piece.foldr consFirst ·)) := by
  induction rest generalizing depth start i piece with
  | nil =>
    have hi : s.length = i := h.length_eq
    rw [argumentCuts?, dif_neg (by omega), hi, h.slice?_eq, argumentPieces]
    split_ifs
    · rw [Option.map_some, Option.map_some, foldr_consFirst, List.append_nil]
    · rfl
  | cons c rest ih =>
    have hcons : ∀ ps : Option (List (List Char)), (ps.map (consFirst c)).map
        (piece.foldr consFirst ·) = ps.map ((piece ++ [c]).foldr consFirst ·) := by
      intro ps
      simp [Function.comp_def]
    rw [argumentCuts?, dif_pos h.lt_length, h.getElem?_eq, h.slice?_eq]
    unfold argumentPieces
    simp only [Option.bind_eq_bind, Option.bind_some]
    split_ifs with hopens hcloses hzero hcomma
    · rw [ih h.step, hcons]
    · rw [hzero]
      rfl
    · obtain ⟨d, rfl⟩ := Nat.exists_eq_succ_of_ne_zero hzero
      rw [hcons]
      exact ih h.step d
    · rw [ih h.step.restart]
      cases argumentPieces 0 rest <;> simp [foldr_consFirst]
    · rw [ih h.step, hcons]

def templateCuts? (s : List Char) : Option (Option (List Char × List (List Char))) :=
  match s.findIdx? (· = '<') with
  | none => some none
  | some i =>
    if i = 0 || s.getLast? ≠ some '>' then some none
    else do
      let name ← slice? s 0 i
      let inside ← slice? s (i + 1) (s.length - 1)
      let pieces ← argumentCuts? inside 0 0 0
      some (pieces.map fun ps => (trim name, trimmedArguments ps))

theorem templateCuts?_eq (s : List Char) : templateCuts? s = some (templateChars? s) := by
  by_cases hs : '<' ∈ s
  · obtain ⟨name, rest, rfl, hname⟩ := List.eq_append_cons_of_mem hs
    have hfind : (name ++ '<' :: rest).findIdx? (· = '<') = some name.length := by
      rw [List.findIdx?_append, List.findIdx?_eq_none_iff.mpr]
      · simp [List.findIdx?_cons]
      · exact fun c hc => decide_eq_false fun hangle => hname (hangle ▸ hc)
    rw [templateChars?_of_angle hname, templateCuts?, hfind]
    rcases List.eq_nil_or_concat' rest with rfl | ⟨inside, d, rfl⟩
    · simp
    · have hlast : (name ++ '<' :: (inside ++ [d])).getLast? = some d := by
        rw [← List.cons_append, ← List.append_assoc, List.getLast?_concat]
      have hfront : StandsAt (name ++ '<' :: (inside ++ [d])) 0 name.length name
          ('<' :: (inside ++ [d])) := ⟨[], rfl, rfl, (Nat.zero_add _).symm⟩
      have hinside : StandsAt (name ++ '<' :: (inside ++ [d])) (name.length + 1)
          ((name ++ '<' :: (inside ++ [d])).length - 1) inside [d] :=
        ⟨name ++ ['<'], by simp, by simp, by simp; omega⟩
      have hcuts := argumentCuts?_eq (.whole inside) 0
      have hempty : (name.length = 0) = (name.isEmpty = true) := by simp
      simp only [hlast, hfront.slice?_eq, hinside.slice?_eq, List.getLast?_concat,
        List.dropLast_concat, Option.bind_eq_bind, Option.bind_some, hcuts, List.foldr_nil,
        Option.map_id', hempty, Bool.decide_eq_true]
      split <;> rfl
  · have hfind : s.findIdx? (· = '<') = none := by
      rw [List.findIdx?_eq_none_iff]
      exact fun c hc => decide_eq_false fun hangle => hs (hangle ▸ hc)
    rw [templateCuts?, hfind, templateChars?_of_no_angle hs]

/-! ## Keywords -/

def tagAt? (s : List Char) (i : Nat) : List (List Char) → Option (Option (List Char))
  | [] => some none
  | kw :: kws =>
    if i + kw.length < s.length then do
      let word ← slice? s i (i + kw.length)
      let next ← s[i + kw.length]?
      if word = kw && next = ' ' then some (some kw) else tagAt? s i kws
    else tagAt? s i kws

def freshAt? (s : List Char) (i : Nat) : Option Bool :=
  if i = 0 then some true else (s[i - 1]?).map (!isIdentifierChar ·)

def droppedAt? (s : List Char) (i : Nat) : Option (Option (List Char)) := do
  let fresh ← freshAt? s i
  if fresh then tagAt? s i tagKeywords else some none

def untaggedFrom? (s : List Char) (i : Nat) : Option (List Char) :=
  if _ : i < s.length then do
    match ← droppedAt? s i with
    | some kw => untaggedFrom? s (i + kw.length + 1)
    | none =>
      let c ← s[i]?
      let cs ← untaggedFrom? s (i + 1)
      some (c :: cs)
  else some []
termination_by s.length - i

theorem isPrefixOf_concat {kw w : List Char} (hlength : w.length = kw.length) (d x : Char)
    (rest : List Char) : (kw ++ [x]).isPrefixOf (w ++ d :: rest) = (w = kw && d = x) := by
  have htake : (w ++ d :: rest).take (kw ++ [x]).length = w ++ [d] := by
    have hcount : (kw ++ [x]).length = (w ++ [d]).length := by simp [hlength]
    have happend : w ++ d :: rest = w ++ [d] ++ rest := List.append_cons ..
    rw [hcount, happend, List.take_left]
  rw [Bool.eq_iff_iff, List.isPrefixOf_iff_prefix, List.prefix_iff_eq_take, htake,
    Bool.and_eq_true, decide_eq_true_eq, decide_eq_true_eq]
  constructor
  · intro h
    obtain ⟨hw, hd⟩ := List.append_inj h hlength.symm
    exact ⟨hw.symm, (List.cons.inj hd).1.symm⟩
  · rintro ⟨rfl, rfl⟩
    rfl

theorem tagAt?_eq {s piece rest : List Char} {start i : Nat} (h : StandsAt s start i piece rest)
    (kws : List (List Char)) :
    tagAt? s i kws = some (kws.find? fun kw => (kw ++ [' ']).isPrefixOf rest) := by
  induction kws with
  | nil => rfl
  | cons kw kws ih =>
    have hlength := h.length_eq
    rw [tagAt?, ih, List.find?_cons]
    split_ifs with hroom
    · obtain ⟨w, d, r, rfl, hw⟩ : ∃ w d r, rest = w ++ d :: r ∧ w.length = kw.length :=
        ⟨rest.take kw.length, rest[kw.length], rest.drop (kw.length + 1), by simp, by simp; omega⟩
      have hword := h.restart.skip
      rw [List.nil_append, hw] at hword
      rw [hword.slice?_eq, hword.getElem?_eq, isPrefixOf_concat hw]
      simp only [Option.bind_eq_bind, Option.bind_some]
      cases (w = kw && d = ' ') <;> rfl
    · have hfront : (kw ++ [' ']).isPrefixOf rest = false := by
        rw [Bool.eq_false_iff, Ne, List.isPrefixOf_iff_prefix]
        intro hkw
        have hle := hkw.length_le
        rw [List.length_append, List.length_singleton] at hle
        omega
      rw [hfront]

theorem findSome?_ite {α β : Type} (p : α → Bool) (f : α → β) (xs : List α) :
    xs.findSome? (fun x => if p x then some (f x) else none) = (xs.find? p).map f := by
  induction xs with
  | nil => rfl
  | cons x xs ih =>
    rw [List.findSome?_cons, List.find?_cons, ih]
    cases p x <;> rfl

theorem freshAt?_eq {s piece rest : List Char} {i : Nat} (h : StandsAt s 0 i piece rest) :
    freshAt? s i = some (piece.getLast?.all (!isIdentifierChar ·)) := by
  obtain ⟨front, rfl, hfront, rfl⟩ := h
  obtain rfl := List.eq_nil_of_length_eq_zero hfront.symm
  rcases List.eq_nil_or_concat' piece with rfl | ⟨p, d, rfl⟩
  · rfl
  · simp [freshAt?]

theorem find?_of_afterTag? {s : List Char} :
    afterTag? s = (tagKeywords.find? fun kw => (kw ++ [' ']).isPrefixOf s).map
      fun kw => s.drop (kw.length + 1) :=
  findSome?_ite _ _ _

section
variable {s piece rest : List Char} {i : Nat} {fresh : Bool}

theorem droppedAt?_tag {kw : List Char} (hkw : kw ∈ tagKeywords)
    (h : StandsAt s 0 i piece (kw ++ ' ' :: rest))
    (hfresh : piece.getLast?.all (!isIdentifierChar ·)) : droppedAt? s i = some (some kw) := by
  have hafter := afterTag?_append hkw rest
  rw [find?_of_afterTag?] at hafter
  obtain ⟨w, hw, hrest⟩ := Option.map_eq_some_iff.mp hafter
  have hfront := List.find?_some hw
  obtain ⟨t, ht⟩ := List.isPrefixOf_iff_prefix.mp hfront
  obtain rfl : t = rest := by
    rw [← ht] at hrest
    simpa using hrest
  have hsame : w = kw := by
    rw [List.append_assoc] at ht
    exact List.append_cancel_right ht
  rw [droppedAt?, freshAt?_eq h, tagAt?_eq h, hfresh, hw, hsame]
  rfl

theorem droppedAt?_keep (h : StandsAt s 0 i piece rest)
    (hnone : piece.getLast?.all (!isIdentifierChar ·) → afterTag? rest = none) :
    droppedAt? s i = some none := by
  rw [droppedAt?, freshAt?_eq h, tagAt?_eq h]
  cases hfresh : piece.getLast?.all (!isIdentifierChar ·) with
  | false => rfl
  | true =>
    have hafter := hnone hfresh
    rw [find?_of_afterTag?, Option.map_eq_none_iff] at hafter
    rw [hafter]
    rfl

theorem untaggedFrom?_eq (h : StandsAt s 0 i piece rest)
    (hfresh : fresh = piece.getLast?.all (!isIdentifierChar ·)) :
    untaggedFrom? s i = some (dropTags fresh rest) := by
  induction fresh, rest using dropTags_induction generalizing piece i with
  | nil fresh =>
    have hi : s.length = i := h.length_eq
    rw [untaggedFrom?, dif_neg (by omega), dropTags]
  | tag kw hkw rest hdrop ih =>
    have hroom : i < s.length := by
      rw [h.length_eq, List.length_append, List.length_cons]
      omega
    have hnext : StandsAt s 0 (i + kw.length + 1) (piece ++ kw ++ [' ']) rest := h.skip.step
    rw [untaggedFrom?, dif_pos hroom, droppedAt?_tag hkw h hfresh.symm, hdrop]
    exact ih hnext (by rw [List.getLast?_concat]; rfl)
  | keep fresh c rest hnone hdrop ih =>
    have hnext : untaggedFrom? s (i + 1) = some (dropTags (!isIdentifierChar c) rest) :=
      ih h.step (by rw [List.getLast?_concat]; rfl)
    rw [untaggedFrom?, dif_pos h.lt_length, droppedAt?_keep h (hfresh ▸ hnone), h.getElem?_eq,
      hnext, hdrop]
    rfl

end

def normalCuts? (s : List Char) : Option (List Char) := untaggedFrom? (spaced s) 0

theorem normalCuts?_eq (s : List Char) : normalCuts? s = some (normalChars s) :=
  untaggedFrom?_eq (.whole (spaced s)) rfl

/-! ## Qualifiers -/

def cutFront? (w s : List Char) : Option (List Char) :=
  if (w ++ [' ']).isPrefixOf s then slice? s (w.length + 1) s.length else some s

def cutBack? (w s : List Char) : Option (List Char) :=
  if (' ' :: w).isSuffixOf s then slice? s 0 (s.length - w.length - 1) else some s

def dropEnd (t s : List Char) : List Char := (dropStart t.reverse s.reverse).reverse

theorem cutFront?_eq (w s : List Char) : cutFront? w s = some (dropStart (w ++ [' ']) s) := by
  rw [cutFront?, dropStart]
  split_ifs with h
  · obtain ⟨t, rfl⟩ := List.isPrefixOf_iff_prefix.mp h
    have hstands : StandsAt (w ++ [' '] ++ t) (w.length + 1) (w ++ [' '] ++ t).length t [] :=
      ⟨w ++ [' '], by simp, by simp, by rw [List.length_append, List.length_append]⟩
    rw [hstands.slice?_eq, List.drop_left]
  · rfl

theorem cutBack?_eq (w s : List Char) : cutBack? w s = some (dropEnd (' ' :: w) s) := by
  rw [cutBack?, dropEnd, dropStart, ← List.isSuffixOf]
  split_ifs with h
  · obtain ⟨t, rfl⟩ := List.isSuffixOf_iff_suffix.mp h
    have hstands : StandsAt (t ++ ' ' :: w) 0 ((t ++ ' ' :: w).length - w.length - 1) t
        (' ' :: w) :=
      ⟨[], rfl, rfl, by simp; omega⟩
    rw [hstands.slice?_eq, List.reverse_append, List.drop_left, List.reverse_reverse]
  · rw [List.reverse_reverse]

def peelCuts? (s : List Char) : Option (List Char) := do
  let s ← cutBack? "const".toList (dropEnd ['&'] (dropEnd ['&', '&'] (trim s)))
  let s ← cutBack? "volatile".toList s
  let s ← cutFront? "const".toList s
  cutFront? "volatile".toList s

theorem peelCuts?_eq (s : List Char) : peelCuts? s = some (peel s) := by
  have htrim : trim s = ((s.dropWhile isBlank).reverse.dropWhile isBlank).reverse := rfl
  simp only [peelCuts?, cutBack?_eq, cutFront?_eq, Option.bind_eq_bind, Option.bind_some]
  rw [peel, peelEnd, htrim]
  simp only [dropEnd, List.reverse_reverse]
  rfl

def peelAllCuts? (s : List Char) : Option (List Char) := do
  let t ← peelCuts? s
  if _ : t.length < s.length then peelAllCuts? t else some s
termination_by s.length

theorem peelAllCuts?_eq (s : List Char) : peelAllCuts? s = some (peelAll s) := by
  fun_induction peelAll s with
  | case1 s h ih =>
    rw [peelAllCuts?, peelCuts?_eq, Option.bind_eq_bind, Option.bind_some, dif_pos h, ih]
  | case2 s h => rw [peelAllCuts?, peelCuts?_eq, Option.bind_eq_bind, Option.bind_some, dif_neg h]

/-! ## Texts -/

def partsCut? (s : String) : Option (List String) :=
  (scopeCuts? s.toList 0 0 0).map (·.map String.ofList)

theorem partsCut?_eq (s : String) : partsCut? s = some (scopeParts s) := by
  rw [partsCut?, scopeCuts?_eq_scopePieces]
  rfl

def templateCut? (s : String) : Option (Option (String × List String)) :=
  (templateCuts? s.toList).map (·.map fun (n, args) => (String.ofList n, args.map String.ofList))

theorem templateCut?_eq (s : String) : templateCut? s = some (template? s) := by
  rw [templateCut?, templateCuts?_eq]
  rfl

def normalCut? (s : String) : Option String := (normalCuts? s.toList).map String.ofList

theorem normalCut?_eq (s : String) : normalCut? s = some (normal s) := by
  rw [normalCut?, normalCuts?_eq]
  rfl

def bareCut? (s : String) : Option String := do
  let cs ← normalCuts? s.toList
  (peelAllCuts? cs).map String.ofList

theorem bareCut?_eq (s : String) : bareCut? s = some (bare s) := by
  rw [bareCut?, normalCuts?_eq]
  simp only [Option.bind_eq_bind, Option.bind_some, peelAllCuts?_eq]
  rfl

end Spelling

end TemplateCensus
